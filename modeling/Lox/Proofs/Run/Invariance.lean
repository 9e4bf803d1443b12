import Lox.Proofs.Run.Upkeep

/-!
# Machines stay well formed

Whatever runs on a well-formed machine leaves one and yields what is well formed there
(`evaluate_stays`, `execute_stays`, `invoke_stays`), by the same recursion on the tree and on the fuel.
-/

namespace Lox

/-! ### Expressions -/

def CallStays (call : Invoke) : Prop :=
  ∀ {s callee arguments} (paren : Token), callee.Upright s → AllUpright s arguments →
    Stays s (call callee arguments paren) Value.Upright

section Expressions

variable {call : Invoke}

theorem callWith_stays (h : CallStays call) {s : Store} {callee : Callable} {arguments : List Value}
    (paren : Token) (good : callee.Upright s) (all : AllUpright s arguments) :
    Stays s (callWith call callee arguments paren) Value.Upright :=
  Stays.ite (h paren good all) (fail_stays _ nofun)

mutual

theorem evaluate_stays (h : CallStays call) {s : Store} : (e : Expr) →
    Stays s (evaluate call e) Value.Upright
  | .literal l => Stays.pure fun _ _ => by cases l <;> trivial
  | .group inner => evaluate_stays h inner
  | .unary operator right => (evaluate_stays h right).bind fun _ v _ _ =>
    orFault_stays _ (operated_unary operator v)
  | .binary left operator right => (evaluate_stays h left).bind fun _ v _ _ =>
    (evaluate_stays h right).bind fun _ w _ _ =>
    orFault_stays _ (operated_binary operator v w)
  | .logical left operator right => (evaluate_stays h left).bind fun _ _ _ good =>
    Stays.ite (Stays.pure fun _ later => good.mono later) (evaluate_stays h right)
  | .variable id name => lookUp_stays id name
  | .assign id name value => (evaluate_stays h value).bind fun _ _ _ good =>
    (assignName_stays id name good).bind fun _ _ later _ => Stays.pure fun _ more =>
      good.mono (later.trans more)
  | .call callee paren arguments => (evaluate_stays h callee).bind fun t v _ good => by
    cases v with
    | callable c =>
      exact (evaluateAll_stays h arguments).bind fun u vs later all =>
        callWith_stays h paren (Callable.Upright.mono later good) all
    | nil | bool | number | string | «instance» => exact fail_stays _ nofun
  | .get object name => (evaluate_stays h object).bind fun t v _ good => by
    cases v with
    | «instance» c o => exact getProperty_stays name good
    | nil | bool | number | string | callable => exact fail_stays _ nofun
  | .set object name value => (evaluate_stays h object).bind fun t v _ _ => by
    cases v with
    | «instance» c o =>
      exact (evaluate_stays h value).bind fun u w _ good =>
        (Stays.modify (fun x later upright => upright.setField (good.mono later) o name.lexeme)
          (.setField · o name.lexeme w)).bind fun x _ later _ => Stays.pure fun y more =>
          good.mono (later.trans more)
    | nil | bool | number | string | callable => exact fail_stays _ nofun
  | .this id keyword => lookUp_stays id keyword
  | .super id keyword method => superMethod_stays id keyword method

theorem evaluateAll_stays (h : CallStays call) {s : Store} : (es : List Expr) →
    Stays s (evaluateAll call es) AllUpright
  | [] => Stays.pure fun _ _ => List.forall_mem_nil _
  | e :: es => (evaluate_stays h e).bind fun _ _ _ good => (evaluateAll_stays h es).bind
    fun _ _ later all => Stays.pure fun _ more =>
      List.forall_mem_cons.2 ⟨good.mono (later.trans more), all.mono more⟩

end

theorem evaluate?_stays (h : CallStays call) {s : Store} (o : Option Expr) :
    Stays s (evaluate? call o) Value.Upright := by
  cases o with
  | none => exact Stays.pure fun _ _ => trivial
  | some e => exact evaluate_stays h e

/-! ### Statements -/

theorem declareFunction_stays {s : Store} (d : FunctionDecl) : Stays s (declareFunction d) AnyResult :=
  freshIdentity_stays.bind fun _ _ _ _ => Stays.get fun _ _ upright =>
    define_stays (v := .callable _) _ upright.env

theorem evaluateSuperclass_stays (h : CallStays call) {s : Store} (name : Token) (o : Option Expr) :
    Stays s (evaluateSuperclass call name o) fun t parent => ∀ p, parent = some p → p.Upright t := by
  cases o with
  | none => exact Stays.pure fun _ _ => nofun
  | some e =>
    refine (evaluate_stays h e).bind fun t v _ good => ?_
    rw [← bind_pure_comp]
    refine Stays.bind (Q := Class.Upright) (orFail_stays _ nofun fun k is u later => ?_)
      fun u k _ good => Stays.pure fun w more p same => ?_
    · cases v with
      | callable c =>
        cases c with
        | «class» c =>
          cases is
          exact good.mono later
        | function | native => cases is
      | nil | bool | number | string | «instance» => cases is
    · cases same
      exact good.mono more

theorem methodEnv_stays {s : Store} {superclass : Option Class}
    (above : ∀ p, superclass = some p → p.Upright s) : Stays s (methodEnv superclass) Grounded := by
  refine Stays.get fun m later upright => ?_
  cases superclass with
  | none => exact Stays.pure fun t more => upright.env.mono more
  | some p =>
    refine (childEnv_stays upright.env).bind fun t inner more grounded => ?_
    refine (defineIn_stays (v := .callable (.class p)) inner "super"
      ((above p rfl).mono (later.trans more))).bind fun u _ most _ => ?_
    exact Stays.pure fun w last => grounded.mono (most.trans last)

theorem assignClass_stays {s : Store} (name : Token) {c : Class} (good : c.Upright s) :
    Stays s (assignClass name c) AnyResult := by
  refine Stays.get fun m later _ => ?_
  cases m.store.owner? m.env name.lexeme with
  | some f =>
    exact Stays.modify (fun t more upright => upright.put (v := .callable (.class c))
      (good.mono (later.trans more)) f name.lexeme) (.put · f name.lexeme _)
  | none => exact fail_stays _ nofun

theorem declareClass_stays (h : CallStays call) {s : Store} (name : Token) (superclass : Option Expr)
    (methods : List FunctionDecl) : Stays s (declareClass call name superclass methods) AnyResult := by
  refine (evaluateSuperclass_stays h name superclass).bind fun t parent _ above => ?_
  refine (define_stays (v := .nil) _ trivial).bind fun u _ later _ => ?_
  refine (methodEnv_stays fun p is => (above p is).mono later).bind fun w env more grounded => ?_
  refine freshIdentity_stays.bind fun x id most _ => ?_
  refine assignClass_stays name (upright_class (grounded.mono most) (fun p is => ?_) _ _ _)
  exact (above p is).mono (later.trans (more.trans most))

theorem loop_stays {condition : Eval Value} {body : Eval Flow}
    (test : ∀ s, Stays s condition Value.Upright) (lap : ∀ s, Stays s body Flow.Upright) (laps : Nat)
    (s : Store) : Stays s (loop condition body laps) Flow.Upright := by
  induction laps generalizing s with
  | zero => exact Stays.throw nofun
  | succ laps ih =>
    refine (test s).bind fun t v _ _ => Stays.ite ((lap t).bind fun u flow _ good => ?_)
      (Stays.pure fun _ _ => trivial)
    cases flow with
    | normal => exact ih u
    | «break» => exact Stays.pure fun _ _ => trivial
    | «return» v => exact Stays.pure fun _ later => Value.Upright.mono later good

mutual

theorem execute_stays (h : CallStays call) (laps : Nat) {s : Store} : (stmt : Stmt) →
    Stays s (execute call laps stmt) Flow.Upright
  | .expression e => (evaluate_stays h e).bind fun _ _ _ _ => Stays.pure fun _ _ => trivial
  | .print e => (evaluate_stays h e).bind fun _ _ _ _ => (printLine_stays _).bind fun _ _ _ _ =>
    Stays.pure fun _ _ => trivial
  | .var _ initializer => (evaluate?_stays h initializer).bind fun _ _ _ good =>
    (define_stays _ good).bind fun _ _ _ _ => Stays.pure fun _ _ => trivial
  | .block body => Stays.get fun _ _ upright => (childEnv_stays upright.env).bind fun _ _ _ grounded =>
    Stays.within grounded (executeAll_stays h laps body)
  | .ite condition thenBranch none => (evaluate_stays h condition).bind fun _ _ _ _ =>
    Stays.ite (execute_stays h laps thenBranch) (Stays.pure fun _ _ => trivial)
  | .ite condition thenBranch (some elseBranch) => (evaluate_stays h condition).bind fun _ _ _ _ =>
    Stays.ite (execute_stays h laps thenBranch) (execute_stays h laps elseBranch)
  | .while condition body =>
    loop_stays (fun _ => evaluate_stays h condition) (fun _ => execute_stays h laps body) laps s
  | .break _ => Stays.pure fun _ _ => trivial
  | .function d => (declareFunction_stays d).bind fun _ _ _ _ => Stays.pure fun _ _ => trivial
  | .return _ value => (evaluate?_stays h value).bind fun _ _ _ good => Stays.pure fun _ later =>
    good.mono later
  | .class name superclass methods =>
    (declareClass_stays h name superclass methods).bind fun _ _ _ _ => Stays.pure fun _ _ => trivial

theorem executeAll_stays (h : CallStays call) (laps : Nat) {s : Store} : (body : List Stmt) →
    Stays s (executeAll call laps body) Flow.Upright
  | [] => Stays.pure fun _ _ => trivial
  | stmt :: body => (execute_stays h laps stmt).bind fun t flow _ good => by
    cases flow with
    | normal => exact executeAll_stays h laps body
    | «break» => exact Stays.pure fun _ _ => trivial
    | «return» v => exact Stays.pure fun _ later => Value.Upright.mono later good

end

end Expressions

/-! ### Calls -/

theorem bindParameters_stays {s : Store} (env : Env) (params : List Token) {arguments : List Value}
    (all : AllUpright s arguments) : Stays s (bindParameters env params arguments) AnyResult := by
  induction params generalizing s arguments with
  | nil => exact Stays.pure fun _ _ => trivial
  | cons p ps ih =>
    cases arguments with
    | nil => exact Stays.pure fun _ _ => trivial
    | cons v vs =>
      obtain ⟨good, all⟩ := List.forall_mem_cons.1 all
      exact (defineIn_stays env p.lexeme good).bind fun t _ later _ => ih (AllUpright.mono later all)

theorem result_stays {s : Store} (closure : Closure) {flow : Flow} (good : flow.Upright s) :
    Stays s (result closure flow) Value.Upright := by
  unfold result
  refine Stays.ite (Stays.get fun m later upright => Stays.pure fun t more => ?_) ?_
  · cases found : m.store.getAt? closure.env 0 "this" with
    | none => trivial
    | some v =>
      obtain ⟨f, -, here⟩ := Option.bind_eq_some_iff.1 found
      exact (upright.store.bindings here).mono more
  · cases flow with
    | «return» v => exact Stays.pure fun _ later => Value.Upright.mono later good
    | normal | «break» => exact Stays.pure fun _ _ => trivial

section Calls

variable {run : List Stmt → Eval Flow} (h : ∀ s body, Stays s (run body) Flow.Upright)

include h

theorem callFunction_stays {s : Store} {closure : Closure} {arguments : List Value}
    (good : Grounded s closure.env) (all : AllUpright s arguments) :
    Stays s (callFunction run closure arguments) Value.Upright := by
  refine (childEnv_stays good).bind fun t env later grounded => ?_
  refine (bindParameters_stays env _ (all.mono later)).bind fun u _ more _ => ?_
  exact (Stays.within (grounded.mono more) (h u _)).bind fun w flow _ good =>
    result_stays closure good

theorem callMethod_stays {s : Store} {c : Class} {o : ObjectId} {method : Method}
    {arguments : List Value} (paren : Token) (receiver : (Value.instance c o).Upright s)
    (good : method.Upright s) (all : AllUpright s arguments) :
    Stays s (callMethod run c o method arguments paren) Value.Upright := by
  refine (bindMethod_stays receiver good).bind fun t bound later good => ?_
  cases bound with
  | function id closure => exact callFunction_stays h good (all.mono later)
  | native id op receiver => exact callNative_stays good (all.mono later) paren
  | «class» c => exact Stays.pure fun _ _ => trivial

theorem instantiate_stays {s : Store} {c : Class} {arguments : List Value} (paren : Token)
    (good : c.Upright s) (all : AllUpright s arguments) :
    Stays s (instantiate run c arguments paren) Value.Upright := by
  refine Stays.bind (Q := fun t o => o < t.objects.size) (fun m later upright => ?_)
    fun t o later inside => ?_
  · exact .ok ⟨upright.store.allocate, upright.env.mono (.allocate m.store)⟩
      ⟨rfl, .allocate m.store⟩ (by simp)
  have receiver : (Value.instance c o).Upright t := ⟨good.mono later, inside⟩
  cases found : c.findMethod? initializerName with
  | none => exact Stays.pure fun _ more => receiver.mono more
  | some method =>
    exact (callMethod_stays h paren receiver (receiver.1.found found) (all.mono later)).bind
      fun u _ more _ => Stays.pure fun _ most => receiver.mono (more.trans most)

theorem apply_stays : CallStays (apply run) := by
  intro s callee arguments paren good all
  cases callee with
  | function id closure => exact callFunction_stays h good all
  | native id op receiver => exact callNative_stays good all paren
  | «class» c => exact instantiate_stays h paren good all

end Calls

theorem invoke_stays (fuel : Nat) : CallStays (invoke fuel) := by
  induction fuel with
  | zero => exact fun _ _ _ => Stays.throw nofun
  | succ fuel ih => exact apply_stays fun _ => executeAll_stays ih fuel

/-! ### Programs -/

theorem runAll_stays (fuel : Nat) {s : Store} (program : List Stmt) :
    Stays s (runAll fuel program) AnyResult := by
  induction program generalizing s with
  | nil => exact Stays.pure fun _ _ => trivial
  | cons stmt program ih =>
    exact (execute_stays (invoke_stays fuel) fuel stmt).bind fun _ _ _ _ => ih

end Lox
