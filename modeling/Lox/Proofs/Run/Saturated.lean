import Lox.Proofs.Run.Moments
import Lox.Proofs.Run.Parameters

/-!
# Numbers of arguments

A call looks at the number of its arguments before it does anything else. So a body is only ever
entered with an argument for every parameter, and a supplied routine with all that it reads
(`invoke_saturates`); what they would do otherwise has no part in any run (`Guarded.invoke_same`).
-/

namespace Lox

open Grammar (bind_of_ok)
open Trace (silent)

/-! ### Moments -/

/-- What is about to be called has as many arguments as it takes. -/
def Act.Saturated : Act → Prop
  | .function closure arguments => arguments.length = closure.declaration.arity
  | .native op _ arguments => arguments.length = op.arity
  | .construct c arguments => arguments.length = c.arity
  | _ => True

/-- No moment has a call with another number of arguments than the callee takes. -/
def Saturates (t : Trace) : Prop := ∀ m, ∀ k ∈ t m, k.event.Saturated

namespace Saturates

variable {α : Type} {t : Trace}

theorem silent : Saturates Trace.silent := fun _ _ mem => absurd mem List.not_mem_nil

theorem mark {event : Act} (fits : event.Saturated) (h : Saturates t) :
    Saturates (Trace.mark event t) := fun m => List.forall_mem_cons.2 ⟨fits, h m⟩

theorem bind {x : Eval α} {next : α → Trace} (first : Saturates t)
    (second : ∀ a, Saturates (next a)) : Saturates (t.bind x next) := by
  intro m k mem
  obtain before | after := List.mem_append.1 mem
  · exact first m k before
  · split at after
    · next a n _ => exact second a n k after
    · exact absurd after List.not_mem_nil

theorem within (env : Env) (h : Saturates t) : Saturates (t.within env) := fun _ => h _

end Saturates

theorem saturates_closed {call : Invoke} {calls : Trace.OfCalls}
    (own : ∀ callee arguments paren, arguments.length = callee.arity →
      Saturates (calls callee arguments paren)) :
    Trace.Closed call calls (fun _ => True) Saturates where
  silent := .silent
  expression _ _ h := .mark trivial h
  statement _ _ h := .mark trivial h
  output _ := .mark trivial .silent
  bind first _ second := first.bind second
  block h := .bind .silent fun env => h.within env
  calls := own
  evaluated _ := trivial
  allEvaluated _ := trivial
  executed _ _ := trivial

section Calls

variable {runs : List Stmt → Trace} (h : ∀ body, Saturates (runs body))

/-- The initializer that a class is asked for its number of arguments is the one that it runs. -/
theorem Class.arity_of_found {c : Class} {method : Method}
    (found : c.findMethod? initializerName = some method) : c.arity = method.arity := by
  unfold Class.arity
  rw [found]
  rfl

include h

theorem callFunction_saturates {closure : Closure} {arguments : List Value}
    (fits : arguments.length = closure.declaration.arity) :
    Saturates (Trace.callFunction runs closure arguments) := by
  refine .mark fits (.bind .silent fun env => .bind .silent fun _ => ?_)
  exact (h closure.declaration.body).within env

omit h in
theorem callNative_saturates {op : Native} {receiver : Option ObjectId} {arguments : List Value}
    (fits : arguments.length = op.arity) :
    Saturates (Trace.callNative op receiver arguments) :=
  .mark fits .silent

/-- A method that is bound to an instance takes as many arguments as before. -/
theorem callMethod_saturates {c : Class} {object : ObjectId} {method : Method}
    {arguments : List Value} (fits : arguments.length = method.arity) :
    Saturates (Trace.callMethod runs c object method arguments) := by
  intro m
  cases method with
  | declared closure =>
    have bound : Saturates (Trace.callFunction runs
        { closure with env := m.store.frames.size :: closure.env } arguments) :=
      callFunction_saturates h fits
    exact bound _
  | native op => exact callNative_saturates fits _

theorem instantiate_saturates {c : Class} {arguments : List Value}
    (fits : arguments.length = c.arity) : Saturates (Trace.instantiate runs c arguments) := by
  refine .mark fits (.bind .silent fun object => ?_)
  cases found : c.findMethod? initializerName with
  | none => exact .silent
  | some method => exact callMethod_saturates h (fits.trans (Class.arity_of_found found))

theorem apply_saturates {callee : Callable} {arguments : List Value} (paren : Token)
    (fits : arguments.length = callee.arity) :
    Saturates (Trace.apply runs callee arguments paren) := by
  cases callee with
  | function id closure => exact callFunction_saturates h fits
  | native id op receiver => exact callNative_saturates fits
  | «class» c => exact instantiate_saturates h fits

end Calls

theorem invoke_saturates (fuel : Nat) (callee : Callable) (arguments : List Value) (paren : Token)
    (fits : arguments.length = callee.arity) :
    Saturates (Trace.invoke fuel callee arguments paren) := by
  induction fuel generalizing callee arguments paren with
  | zero => exact .silent
  | succ fuel ih =>
    exact apply_saturates (fun body => (saturates_closed ih).executeAll fuel body) paren fits

theorem runAll_saturates (fuel : Nat) (program : List Stmt) :
    Saturates (Trace.runAll fuel program) := by
  induction program with
  | nil => exact .silent
  | cons s ss ih =>
    exact .bind ((saturates_closed (invoke_saturates fuel)).execute fuel s) fun _ => ih

theorem trace_saturates (m : Machine) (fuel : Nat) (source : String) :
    ∀ k ∈ m.trace fuel source, k.event.Saturated := by
  unfold Machine.trace
  intro k mem
  dsimp only at mem
  split at mem
  · next program _ =>
    split at mem
    · exact runAll_saturates fuel program _ k mem
    · cases mem
  · cases mem

/-! ### Calls that are never made -/

/-- The calls have the same effect with as many arguments as the callee takes. -/
def SameCalls (call call' : Invoke) : Prop :=
  ∀ callee arguments paren, arguments.length = callee.arity →
    call callee arguments paren = call' callee arguments paren

section Congruence

variable {call call' : Invoke}

theorem callWith_same (h : SameCalls call call') (callee : Callable) (arguments : List Value)
    (paren : Token) :
    callWith call callee arguments paren = callWith call' callee arguments paren := by
  unfold callWith
  split
  · next fits => exact h callee arguments paren fits
  · rfl

mutual

theorem evaluate_same (h : SameCalls call call') : (e : Expr) → evaluate call e = evaluate call' e
  | .literal _ | .variable _ _ | .this _ _ | .super _ _ _ => by rw [evaluate, evaluate]
  | .group inner => by rw [evaluate, evaluate, evaluate_same h inner]
  | .unary _ right => by rw [evaluate, evaluate, evaluate_same h right]
  | .binary left _ right => by
    rw [evaluate, evaluate, evaluate_same h left, evaluate_same h right]
  | .logical left _ right => by
    rw [evaluate, evaluate, evaluate_same h left, evaluate_same h right]
  | .assign _ _ value => by rw [evaluate, evaluate, evaluate_same h value]
  | .call callee _ arguments => by
    rw [evaluate, evaluate, evaluate_same h callee, evaluateAll_same h arguments]
    simp only [callWith_same h]
  | .get object _ => by rw [evaluate, evaluate, evaluate_same h object]
  | .set object _ value => by
    rw [evaluate, evaluate, evaluate_same h object, evaluate_same h value]

theorem evaluateAll_same (h : SameCalls call call') :
    (es : List Expr) → evaluateAll call es = evaluateAll call' es
  | [] => by rw [evaluateAll, evaluateAll]
  | e :: es => by rw [evaluateAll, evaluateAll, evaluate_same h e, evaluateAll_same h es]

end

theorem evaluate?_same (h : SameCalls call call') :
    (o : Option Expr) → evaluate? call o = evaluate? call' o
  | none => rfl
  | some e => evaluate_same h e

theorem evaluateSuperclass_same (h : SameCalls call call') (name : Token) :
    (o : Option Expr) → evaluateSuperclass call name o = evaluateSuperclass call' name o
  | none => rfl
  | some e => by rw [evaluateSuperclass, evaluateSuperclass, evaluate_same h e]

theorem declareClass_same (h : SameCalls call call') (name : Token) (superclass : Option Expr)
    (methods : List FunctionDecl) :
    declareClass call name superclass methods = declareClass call' name superclass methods := by
  unfold declareClass
  rw [evaluateSuperclass_same h]

mutual

theorem execute_same (h : SameCalls call call') (laps : Nat) :
    (s : Stmt) → execute call laps s = execute call' laps s
  | .expression e => by rw [execute, execute, evaluate_same h e]
  | .print e => by rw [execute, execute, evaluate_same h e]
  | .var _ initializer => by rw [execute, execute, evaluate?_same h initializer]
  | .block body => by rw [execute, execute, executeAll_same h laps body]
  | .ite condition thenBranch none => by
    rw [execute, execute, evaluate_same h condition, execute_same h laps thenBranch]
  | .ite condition thenBranch (some elseBranch) => by
    rw [execute, execute, evaluate_same h condition, execute_same h laps thenBranch,
      execute_same h laps elseBranch]
  | .while condition body => by
    rw [execute, execute, evaluate_same h condition, execute_same h laps body]
  | .break _ | .function _ => by rw [execute, execute]
  | .return _ value => by rw [execute, execute, evaluate?_same h value]
  | .class name superclass methods => by
    rw [execute, execute, declareClass_same h name superclass methods]

theorem executeAll_same (h : SameCalls call call') (laps : Nat) :
    (ss : List Stmt) → executeAll call laps ss = executeAll call' laps ss
  | [] => by rw [executeAll, executeAll]
  | s :: ss => by
    rw [executeAll, executeAll, execute_same h laps s, executeAll_same h laps ss]

end

end Congruence

namespace Guarded

/-! The calls of the evaluator, but that a function or a supplied routine with another number of
arguments than it takes does something else. -/

section Definitions

variable (stray : Eval Value) (run : List Stmt → Eval Flow)

def callFunction (closure : Closure) (arguments : List Value) : Eval Value :=
  if arguments.length = closure.declaration.arity then Lox.callFunction run closure arguments
  else stray

def callNative (op : Native) (receiver : Option ObjectId) (arguments : List Value)
    (paren : Token) : Eval Value :=
  if arguments.length = op.arity then Lox.callNative op receiver arguments paren else stray

def callMethod (c : Class) (object : ObjectId) (method : Method) (arguments : List Value)
    (paren : Token) : Eval Value := do
  match ← bindMethod c object method with
  | .function _ closure => callFunction stray run closure arguments
  | .native _ op receiver => callNative stray op receiver arguments paren
  | .class _ => return .nil

def instantiate (c : Class) (arguments : List Value) (paren : Token) : Eval Value := do
  let object ← modifyGet (·.withStore (·.allocate))
  if let some method := c.findMethod? initializerName then
    let _ ← callMethod stray run c object method arguments paren
  return .instance c object

def apply : Invoke
  | .function _ closure, arguments, _ => callFunction stray run closure arguments
  | .native _ op receiver, arguments, paren => callNative stray op receiver arguments paren
  | .class c, arguments, paren => instantiate stray run c arguments paren

def invoke : Nat → Invoke
  | 0 => fun _ _ _ => throw .outOfFuel
  | fuel + 1 => apply stray (executeAll (invoke fuel) fuel)

end Definitions

section Same

variable (stray : Eval Value) {run : List Stmt → Eval Flow} {arguments : List Value}

theorem callMethod_same (c : Class) (object : ObjectId) {method : Method} (paren : Token)
    (fits : arguments.length = method.arity) :
    callMethod stray run c object method arguments paren =
      Lox.callMethod run c object method arguments paren := by
  cases method with
  | declared closure =>
    have body : ∀ env, callFunction stray run { closure with env } arguments =
        Lox.callFunction run { closure with env } arguments := fun _ => if_pos fits
    simp only [callMethod, Lox.callMethod, bindMethod, bind_assoc, pure_bind, body]
  | native op =>
    have body : callNative stray op (some object) arguments paren =
        Lox.callNative op (some object) arguments paren := if_pos fits
    simp only [callMethod, Lox.callMethod, bindMethod, bind_assoc, pure_bind, body]

theorem instantiate_same (c : Class) (paren : Token) (fits : arguments.length = c.arity) :
    instantiate stray run c arguments paren = Lox.instantiate run c arguments paren := by
  unfold instantiate Lox.instantiate
  refine congrArg _ (funext fun object => ?_)
  cases found : c.findMethod? initializerName with
  | none => rfl
  | some method =>
    dsimp only
    rw [callMethod_same stray c object paren (fits.trans (Class.arity_of_found found))]

theorem apply_same : SameCalls (apply stray run) (Lox.apply run) := by
  intro callee arguments paren fits
  cases callee with
  | function id closure => exact if_pos fits
  | native id op receiver => exact if_pos fits
  | «class» c => exact instantiate_same stray c paren fits

theorem invoke_same (fuel : Nat) : SameCalls (invoke stray fuel) (Lox.invoke fuel) := by
  induction fuel with
  | zero => exact fun _ _ _ _ => rfl
  | succ fuel ih =>
    have runs : executeAll (invoke stray fuel) fuel = executeAll (Lox.invoke fuel) fuel :=
      funext fun body => executeAll_same ih fuel body
    unfold invoke Lox.invoke
    rw [runs]
    exact apply_same stray

end Same

end Guarded

/-! ### Supplied routines -/

/-- The arguments that a routine reads are among as many as it takes. -/
theorem Native.run_same (op : Native) (receiver : Option ObjectId) {arguments arguments' : List Value}
    (same : ∀ i < op.arity, arguments[i]? = arguments'[i]?) :
    op.run receiver arguments = op.run receiver arguments' := by
  have read : ∀ i < op.arity, arguments.getD i .nil = arguments'.getD i .nil := fun i below => by
    rw [List.getD_eq_getElem?_getD, List.getD_eq_getElem?_getD, same i below]
  cases op with
  | clock | read | readNum => rfl
  | listInit | listGet | listAppend | listRemove | listPop =>
    unfold run
    rw [read 0 Nat.one_pos]
  | listSet =>
    unfold run
    rw [read 0 Nat.two_pos, read 1 Nat.one_lt_two]

/-! ### Call expressions -/

section Expressions

variable {call : Invoke} {callee : Expr} {arguments : List Expr} {m n o : Machine} {c : Callable}
  {vs : List Value}

/-- A call comes to its arguments once the callee is known to be one. -/
theorem evaluate_call (paren : Token) (found : evaluate call callee m = .ok (.callable c) n)
    (passed : evaluateAll call arguments n = .ok vs o) :
    evaluate call (.call callee paren arguments) m = callWith call c vs paren o := by
  rw [evaluate]
  exact (bind_of_ok found).trans (bind_of_ok passed)

theorem trace_call (calls : Trace.OfCalls) (paren : Token)
    (found : evaluate call callee m = .ok (.callable c) n)
    (passed : evaluateAll call arguments n = .ok vs o) :
    Trace.evaluate call calls (.call callee paren arguments) m =
      ⟨.expression (.call callee paren arguments), m⟩ :: (Trace.evaluate call calls callee m ++
        (Trace.evaluateAll call calls arguments n ++ Trace.callWith calls c vs paren o)) := by
  rw [Trace.evaluate]
  refine congrArg (List.cons _) ?_
  exact (Trace.bind_of_ok found).trans (congrArg _ (Trace.bind_of_ok passed))

end Expressions

/-- A call with another number of arguments than the callee takes: an error, with the machine as the
evaluation of the arguments left it. -/
theorem callWith_unfit (call : Invoke) {c : Callable} {vs : List Value} (paren : Token)
    (unfit : vs.length ≠ c.arity) (m : Machine) :
    callWith call c vs paren m =
      .error (.error (.program paren.line (.wrongArity c.arity vs.length))) m := by
  unfold callWith
  rw [if_neg unfit]
  rfl

theorem trace_callWith_unfit (calls : Trace.OfCalls) {c : Callable} {vs : List Value} (paren : Token)
    (unfit : vs.length ≠ c.arity) : Trace.callWith calls c vs paren = silent := by
  unfold Trace.callWith
  rw [if_neg unfit]

/-- In every run, functions and supplied routines are only called with as many arguments as they
take, classes included with whatever initializer they have; what they do otherwise makes no
difference. So all parameters are bound, no argument is left over, and no routine reads an argument
that is not there. With any other number a call is an error, which comes after the callee and the
arguments were evaluated and before anything else happens. -/
theorem calls_saturated :
    (∀ (m : Machine) fuel source, ∀ k ∈ m.trace fuel source, k.event.Saturated) ∧
    (∀ stray fuel, (∀ e, evaluate (Guarded.invoke stray fuel) e = evaluate (invoke fuel) e) ∧
      ∀ laps s, execute (Guarded.invoke stray fuel) laps s = execute (invoke fuel) laps s) ∧
    (∀ (m : Machine) (closure : Closure) arguments,
      arguments.length = closure.declaration.arity →
      m.Enters closure arguments (m.entered closure arguments) ∧
        ∀ run, callFunction run closure arguments m =
          (within (m.store.frames.size :: closure.env) (run closure.declaration.body) >>=
            result closure) (m.entered closure arguments)) ∧
    (∀ (op : Native) receiver arguments arguments',
      (∀ i < op.arity, arguments[i]? = arguments'[i]?) →
      op.run receiver arguments = op.run receiver arguments') ∧
    ∀ call calls callee arguments (paren : Token) m n o c vs,
      evaluate call callee m = .ok (.callable c) n → evaluateAll call arguments n = .ok vs o →
      (vs.length = c.arity →
        evaluate call (.call callee paren arguments) m = call c vs paren o) ∧
      (vs.length ≠ c.arity →
        evaluate call (.call callee paren arguments) m =
          .error (.error (.program paren.line (.wrongArity c.arity vs.length))) o ∧
        Trace.evaluate call calls (.call callee paren arguments) m =
          ⟨.expression (.call callee paren arguments), m⟩ ::
            (Trace.evaluate call calls callee m ++ Trace.evaluateAll call calls arguments n)) := by
  refine ⟨trace_saturates, fun stray fuel => ?_, fun m closure arguments fits => ?_,
    fun op receiver _ _ same => op.run_same receiver same,
    fun call calls callee arguments paren m n o c vs found passed => ⟨fun fits => ?_, fun unfit => ?_⟩⟩
  · have same := Guarded.invoke_same stray fuel
    exact ⟨evaluate_same same, execute_same same⟩
  · exact ⟨m.enters fits, fun run => callFunction_entered run closure arguments m⟩
  · rw [evaluate_call paren found passed, callWith, if_pos fits]
  · rw [evaluate_call paren found passed, trace_call calls paren found passed,
      callWith_unfit call paren unfit, trace_callWith_unfit calls paren unfit]
    exact ⟨rfl, congrArg (List.cons _) (congrArg _ (List.append_nil _))⟩

/-! ### A session -/

/-- `class A { init(x) {} } class B < A {} class C {} A(nil); B(nil); C(); clock(); B();` -/
def callingText : String :=
  "class A \x7b init(x) \x7b\x7d \x7d class B < A \x7b\x7d class C \x7b\x7d " ++
    "A(nil); B(nil); C(); clock(); B();"

def calling : List Moment :=
  (Machine.start [] .unlimited fun _ => 0).trace 9 callingText

/-- A function with one parameter is about to be entered. -/
def Moment.passesOne (k : Moment) : Bool :=
  match k.event with
  | .function _ arguments => arguments.length == 1
  | _ => false

/-- A call is about to be evaluated that has another number of arguments than its callee takes. -/
def Moment.misfits (k : Moment) : Bool :=
  match k.event with
  | .expression (.call callee _ arguments) =>
    match evaluate (invoke 9) callee k.machine with
    | .ok (.callable c) n =>
      match evaluateAll (invoke 9) arguments n with
      | .ok vs _ => vs.length != c.arity
      | _ => false
    | _ => false
  | _ => false

theorem calls_saturated_inherited :
    (∃ k ∈ calling, ∃ closure v, k.event = .function closure [v] ∧
      k.machine.Enters closure [v] (k.machine.entered closure [v])) ∧
    Native.listPop.run none [.nil, .nil] = Native.listPop.run none [.nil] ∧
    ∃ k ∈ calling, ∃ callee paren arguments, ∃ (vs : List Value) (n : Machine) (c : Callable),
      k.event = .expression (.call callee paren arguments) ∧ vs.length ≠ c.arity ∧
      evaluate (invoke 9) (.call callee paren arguments) k.machine =
        .error (.error (.program paren.line (.wrongArity c.arity vs.length))) n := by
  obtain ⟨saturated, -, enters, routines, expressions⟩ := calls_saturated
  refine ⟨?_, routines .listPop none _ _ fun i below => ?_, ?_⟩
  · obtain ⟨k, mem, passes⟩ := List.any_eq_true.1
      (by decide +kernel : calling.any Moment.passesOne = true)
    have fits := saturated _ _ _ k mem
    unfold Moment.passesOne at passes
    split at passes
    · next closure arguments event =>
      obtain ⟨v, rfl⟩ := List.length_eq_one_iff.1 (beq_iff_eq.1 passes)
      rw [event] at fits
      exact ⟨k, mem, closure, v, event, (enters k.machine closure [v] fits).1⟩
    · cases passes
  · obtain rfl := Nat.lt_one_iff.1 below
    rfl
  · obtain ⟨k, mem, misfits⟩ := List.any_eq_true.1
      (by decide +kernel : calling.any Moment.misfits = true)
    unfold Moment.misfits at misfits
    split at misfits
    · next callee paren arguments event =>
      split at misfits
      · next c n found =>
        split at misfits
        · next vs o passed =>
          have unfit : vs.length ≠ c.arity := bne_iff_ne.1 misfits
          refine ⟨k, mem, callee, paren, arguments, vs, o, c, event, unfit, ?_⟩
          exact ((expressions _ (fun _ _ _ => silent) _ _ paren _ _ _ _ _ found passed).2 unfit).1
        · cases misfits
      · cases misfits
    · cases misfits

end Lox
