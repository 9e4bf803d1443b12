import Lox.Proofs.Run.Trace
import Lox.Proofs.Tree.Parts

/-!
# Disciplines

A judgment on computations and their traces, in a world that only grows, holds of everything the
evaluator does once it is known of the single steps and passes from parts to wholes (`Discipline`,
`invoke_does`, `runAll_does`). What is yielded is good in the world that the computation ends in.
-/

namespace Lox

/-- What can be said of a computation with its trace, and which values it may rely on. -/
structure Judgment where
  /-- Whether it is said of proper programs only. -/
  Strict : Prop
  World : Type
  Later : World → World → Prop
  GoodEnv : World → Env → Prop
  GoodFunction : World → Closure → Prop
  GoodNative : World → Native → Option ObjectId → Prop
  GoodMethod : World → Method → Prop
  GoodClass : World → Class → Prop
  GoodInstance : World → Class → ObjectId → Prop
  /-- Begun in a world, the computation ends in one where its value is as stated. -/
  Does : {α : Type} → World → Eval α → Trace → (World → α → Prop) → Prop

namespace Judgment

variable (J : Judgment) (w : J.World)

def GoodCallable : Callable → Prop
  | .function _ closure => J.GoodFunction w closure
  | .native _ op receiver => J.GoodNative w op receiver
  | .class c => J.GoodClass w c

def Good : Value → Prop
  | .callable c => J.GoodCallable w c
  | .instance c o => J.GoodInstance w c o
  | _ => True

def AllGood (vs : List Value) : Prop := ∀ v ∈ vs, J.Good w v

def GoodFlow : Flow → Prop
  | .return v => J.Good w v
  | _ => True

def AnyValue {α : Type} (_ : J.World) (_ : α) : Prop := True

/-- What is about to be done is done to good values. Prints and calls of supplied routines are steps of
their own. -/
def GoodEvent : Act → Prop
  | .statement s => J.Strict → s.Proper
  | .expression e => J.Strict → e.Proper
  | .function closure arguments => J.GoodFunction w closure ∧ J.AllGood w arguments
  | .native _ _ _ => False
  | .construct c arguments => J.GoodClass w c ∧ J.AllGood w arguments
  | .output _ => False

end Judgment

open Trace (silent)

/-- A judgment that holds of the single steps and is kept when they are put together. -/
class Discipline (J : Judgment) : Prop where
  refl : ∀ w, J.Later w w
  trans : ∀ {u v w}, J.Later u v → J.Later v w → J.Later u w
  proper : ∀ {w closure}, J.Strict → J.GoodFunction w closure → closure.declaration.Proper
  laterFunction : ∀ {v w closure}, J.Later v w → J.GoodFunction v closure → J.GoodFunction w closure
  laterNative : ∀ {v w op receiver}, J.Later v w → J.GoodNative v op receiver →
    J.GoodNative w op receiver
  laterEnv : ∀ {v w env}, J.Later v w → J.GoodEnv v env → J.GoodEnv w env
  laterClass : ∀ {v w c}, J.Later v w → J.GoodClass v c → J.GoodClass w c
  laterInstance : ∀ {v w c o}, J.Later v w → J.GoodInstance v c o → J.GoodInstance w c o
  found : ∀ {w c name method}, J.GoodClass w c → c.findMethod? name = some method →
    J.GoodMethod w method
  pure : ∀ {α : Type} {w} {a : α} {Q}, (∀ v, J.Later w v → Q v a) → J.Does w (Pure.pure a) silent Q
  throw : ∀ {α : Type} {w} {e} {Q : J.World → α → Prop},
    J.Does w (MonadExcept.throw e) silent Q
  bind : ∀ {α β : Type} {w} {x : Eval α} {f : α → Eval β} {t next Q R}, J.Does w x t Q →
    (∀ v a, J.Later w v → Q v a → J.Does v (f a) (next a) R) →
    J.Does w (x >>= f) (t.bind x next) R
  mark : ∀ {α : Type} {w} {x : Eval α} {t Q event}, J.GoodEvent w event → J.Does w x t Q →
    J.Does w x (Trace.mark event t) Q
  within : ∀ {α : Type} {w} {x : Eval α} {t Q env}, J.GoodEnv w env → J.Does w x t Q →
    J.Does w (Lox.within env x) (t.within env) Q
  -- Single steps.
  lookUp : ∀ w id name, J.Does w (Lox.lookUp id name) silent J.Good
  assignName : ∀ {w v} id name, (J.Strict → name.Declarable) → J.Good w v →
    J.Does w (Lox.assignName id name v) silent J.AnyValue
  getProperty : ∀ {w c o} name, J.GoodInstance w c o →
    J.Does w (Lox.getProperty c o name) silent J.Good
  setField : ∀ {w v} o name, J.Good w v →
    J.Does w (modify (·.mapStore (·.setField o name v))) silent J.AnyValue
  superMethod : ∀ w id keyword method, J.Does w (Lox.superMethod id keyword method) silent J.Good
  define : ∀ {w v} (name : Token), (J.Strict → name.Declarable) → J.Good w v →
    J.Does w (Lox.define name.lexeme v) silent J.AnyValue
  declareFunction : ∀ w d, (J.Strict → d.name.Declarable ∧ d.Proper) →
    J.Does w (Lox.declareFunction d) silent J.AnyValue
  blockEnv : ∀ w, J.Does w Trace.blockEnv silent J.GoodEnv
  methodEnv : ∀ {w superclass}, (∀ p, superclass = some p → J.GoodClass w p) →
    J.Does w (Lox.methodEnv superclass) silent J.GoodEnv
  makeClass : ∀ {w superclass env} name methods,
    (J.Strict → name.Declarable ∧ FunctionDecl.ProperAll methods) → J.GoodEnv w env →
    (∀ p, superclass = some p → J.GoodClass w p) →
    J.Does w (freshIdentity >>= fun id => Lox.assignClass name
      ⟨id, name.lexeme, superclass, methodTable env methods⟩) silent J.AnyValue
  callEnv : ∀ {w closure}, J.GoodFunction w closure →
    J.Does w (childEnv closure.env) silent J.GoodEnv
  defineIn : ∀ {w v env} (name : Token), (J.Strict → name.Declarable) → J.GoodEnv w env →
    J.Good w v → J.Does w (Lox.defineIn env name.lexeme v) silent J.AnyValue
  result : ∀ {w closure flow}, J.GoodFunction w closure → J.GoodFlow w flow →
    J.Does w (Lox.result closure flow) silent J.Good
  bindMethod : ∀ {w c o method}, J.GoodInstance w c o → J.GoodMethod w method →
    J.Does w (Lox.bindMethod c o method) silent J.GoodCallable
  allocate : ∀ {w c}, J.GoodClass w c →
    J.Does w (modifyGet (·.withStore (·.allocate))) silent fun v o => J.GoodInstance v c o
  callNative : ∀ {w op receiver arguments} paren, J.GoodNative w op receiver →
    J.AllGood w arguments → J.Does w (Lox.callNative op receiver arguments paren)
      (Trace.callNative op receiver arguments) J.Good
  printLine : ∀ w text, J.Does w (Lox.printLine text) (Trace.mark (.output text) silent) J.AnyValue

namespace Discipline

section Rules

variable {J : Judgment} [Discipline J] {v w : J.World}

theorem good_mono (later : J.Later v w) {x : Value} (h : J.Good v x) : J.Good w x := by
  cases x with
  | callable c =>
    cases c with
    | function => exact laterFunction later h
    | native => exact laterNative later h
    | «class» => exact laterClass later h
  | «instance» => exact laterInstance later h
  | nil | bool | number | string => trivial

theorem allGood_mono (later : J.Later v w) {xs : List Value} (h : J.AllGood v xs) :
    J.AllGood w xs :=
  fun x mem => good_mono later (h x mem)

variable {α β : Type} {x : Eval α} {f : α → Eval β} {t : Trace} {Q : J.World → α → Prop}
  {R : J.World → β → Prop}

/-- What follows has no moments of its own. -/
theorem andThen (first : J.Does w x t Q)
    (next : ∀ v a, J.Later w v → Q v a → J.Does v (f a) silent R) : J.Does w (x >>= f) t R := by
  rw [← t.bind_silent x]
  exact bind first next

omit [Discipline J] in
theorem ite {c : Prop} [Decidable c] {y : Eval α} {u : Trace} (h : J.Does w x t Q)
    (k : J.Does w y u Q) : J.Does w (if c then x else y) (if c then t else u) Q := by
  split
  · exact h
  · exact k

theorem orFail {o : Option α} (line : Nat) (cause : RuntimeFault)
    (good : ∀ a, o = some a → ∀ v, J.Later w v → Q v a) :
    J.Does w (Lox.orFail line cause o) silent Q := by
  cases o with
  | none => exact throw
  | some a => exact pure (good a rfl)

end Rules

/-! ### Operators -/

section Operators

variable {J : Judgment} {w : J.World}

theorem good_unary {operator : Token} {a b : Value} (h : a.applyUnary operator = .ok b) :
    J.Good w b := by
  unfold Value.applyUnary at h
  split at h <;> cases h <;> trivial

theorem good_numeric {operator : Token} {a b : Float} {c : Value}
    (h : Value.applyNumeric operator a b = .ok c) : J.Good w c := by
  unfold Value.applyNumeric at h
  split at h <;> cases h <;> trivial

theorem good_add {a b c : Value} (h : a.add b = .ok c) : J.Good w c := by
  unfold Value.add at h
  split at h <;> cases h <;> trivial

theorem good_binary {operator : Token} {a b c : Value} (h : a.applyBinary operator b = .ok c) :
    J.Good w c := by
  unfold Value.applyBinary at h
  split at h
  · cases h
    trivial
  · cases h
    trivial
  · exact good_add h
  · split at h
    · exact good_numeric h
    · cases h

theorem orFault [Discipline J] {r : Except RuntimeFault Value} (line : Nat)
    (good : ∀ a, r = .ok a → ∀ v, J.Good v a) : J.Does w (Lox.orFault line r) silent J.Good := by
  cases r with
  | error cause => exact throw
  | ok a => exact pure fun v _ => good a rfl v

end Operators

section Runs

variable {J : Judgment} [Discipline J]

/-! ### Expressions -/

def CallDoes (J : Judgment) (call : Invoke) (calls : Trace.OfCalls) : Prop :=
  ∀ {w callee arguments} paren, J.GoodCallable w callee → J.AllGood w arguments →
    J.Does w (call callee arguments paren) (calls callee arguments paren) J.Good

section Trees

variable {call : Invoke} {calls : Trace.OfCalls}

theorem callWith_does (h : CallDoes J call calls) {w : J.World} {callee : Callable}
    {arguments : List Value} (paren : Token) (good : J.GoodCallable w callee)
    (all : J.AllGood w arguments) :
    J.Does w (callWith call callee arguments paren) (Trace.callWith calls callee arguments paren)
      J.Good :=
  ite (h paren good all) throw

mutual

theorem evaluate_does (h : CallDoes J call calls) {w : J.World} (e : Expr)
    (own : J.Strict → e.Proper) :
    J.Does w (evaluate call e) (Trace.evaluate call calls e) J.Good := by
  unfold Trace.evaluate
  refine Discipline.mark own ?_
  match e with
  | .literal l => exact pure fun _ _ => by cases l <;> trivial
  | .group inner => exact evaluate_does h inner own
  | .unary operator right =>
    exact andThen (evaluate_does h right own) fun _ _ _ _ => orFault _ fun _ is _ => good_unary is
  | .binary left operator right =>
    refine bind (evaluate_does h left fun strict => (own strict).1) fun _ _ _ _ => ?_
    exact andThen (evaluate_does h right fun strict => (own strict).2) fun _ _ _ _ =>
      orFault _ fun _ is _ => good_binary is
  | .logical left operator right =>
    refine bind (evaluate_does h left fun strict => (own strict).1) fun _ _ _ good =>
      ite ?_ (evaluate_does h right fun strict => (own strict).2)
    exact pure fun _ later => good_mono later good
  | .variable id name => exact lookUp w id name
  | .assign id name value =>
    refine andThen (evaluate_does h value fun strict => (own strict).2) fun _ _ _ good => ?_
    exact andThen (assignName id name (fun strict => (own strict).1) good) fun _ _ later _ =>
      pure fun _ more => good_mono (trans later more) good
  | .call callee paren arguments =>
    refine bind (evaluate_does h callee fun strict => (own strict).1) fun _ callable _ good => ?_
    cases callable with
    | callable c =>
      exact bind (evaluateAll_does h arguments fun strict => (own strict).2) fun _ vs later all =>
        callWith_does h paren (good_mono (x := .callable c) later good) all
    | nil | bool | number | string | «instance» => exact throw
  | .get object name =>
    refine andThen (evaluate_does h object own) fun _ receiver _ good => ?_
    cases receiver with
    | «instance» c o => exact getProperty name good
    | nil | bool | number | string | callable => exact throw
  | .set object name value =>
    refine bind (evaluate_does h object fun strict => (own strict).1) fun _ receiver _ _ => ?_
    cases receiver with
    | «instance» c o =>
      refine andThen (evaluate_does h value fun strict => (own strict).2) fun _ _ _ good => ?_
      exact andThen (setField o name.lexeme good) fun _ _ later _ =>
        pure fun _ more => good_mono (trans later more) good
    | nil | bool | number | string | callable => exact throw
  | .this id keyword => exact lookUp w id keyword
  | .super id keyword method => exact superMethod w id keyword method

theorem evaluateAll_does (h : CallDoes J call calls) {w : J.World} (es : List Expr)
    (own : J.Strict → Expr.ProperAll es) :
    J.Does w (evaluateAll call es) (Trace.evaluateAll call calls es) J.AllGood := by
  match es with
  | [] => exact pure fun _ _ => List.forall_mem_nil _
  | e :: es =>
    refine bind (evaluate_does h e fun strict => (own strict).1) fun _ _ _ good => ?_
    exact andThen (evaluateAll_does h es fun strict => (own strict).2) fun _ _ later all => pure fun _ more =>
      List.forall_mem_cons.2 ⟨good_mono (trans later more) good, allGood_mono more all⟩

end

theorem evaluate?_does (h : CallDoes J call calls) {w : J.World} (o : Option Expr)
    (own : J.Strict → Expr.ProperOption o) :
    J.Does w (evaluate? call o) (Trace.evaluate? call calls o) J.Good := by
  cases o with
  | none => exact pure fun _ _ => trivial
  | some e => exact evaluate_does h e own

/-! ### Statements -/

theorem evaluateSuperclass_does (h : CallDoes J call calls) {w : J.World} (name : Token)
    (o : Option Expr) (own : J.Strict → IsSuperclass o) :
    J.Does w (evaluateSuperclass call name o) (Trace.evaluate? call calls o)
      fun v parent => ∀ p, parent = some p → J.GoodClass v p := by
  cases o with
  | none => exact pure fun _ _ => nofun
  | some e =>
    have named : J.Strict → e.Proper := fun strict => by
      obtain ⟨id, superclass, rfl, declarable⟩ := own strict
      exact declarable
    refine andThen (evaluate_does h e named) fun v value _ good => ?_
    rw [← bind_pure_comp]
    refine andThen (Q := J.GoodClass) (orFail _ _ fun k is u later => ?_) fun u k _ good =>
      pure fun _ more p same => ?_
    · cases value with
      | callable c =>
        cases c with
        | «class» c =>
          cases is
          exact laterClass later good
        | function | native => cases is
      | nil | bool | number | string | «instance» => cases is
    · cases same
      exact laterClass more good

theorem declareClass_does (h : CallDoes J call calls) {w : J.World} (name : Token)
    (superclass : Option Expr) (methods : List FunctionDecl)
    (own : J.Strict → (Stmt.class name superclass methods).Proper) :
    J.Does w (declareClass call name superclass methods) (Trace.evaluate? call calls superclass)
      J.AnyValue := by
  refine andThen (evaluateSuperclass_does h name superclass fun strict => (own strict).2.1)
    fun _ parent _ above => ?_
  refine andThen (define (v := .nil) name (fun strict => (own strict).1) trivial)
    fun _ _ later _ => ?_
  have above := fun p is => laterClass later (above p is)
  refine andThen (methodEnv above) fun _ env more good => ?_
  exact makeClass name methods (fun strict => ⟨(own strict).1, (own strict).2.2⟩) good
    fun p is => laterClass more (above p is)

theorem loop_does {condition : Eval Value} {body : Eval Flow} {tests bodies : Trace}
    (test : ∀ w, J.Does w condition tests J.Good) (lap : ∀ w, J.Does w body bodies J.GoodFlow)
    (laps : Nat) (w : J.World) :
    J.Does w (loop condition body laps) (Trace.loop condition body tests bodies laps)
      J.GoodFlow := by
  induction laps generalizing w with
  | zero => exact throw
  | succ laps ih =>
    refine bind (test w) fun u _ _ _ => ite (bind (lap u) fun v flow _ good => ?_)
      (pure fun _ _ => trivial)
    cases flow with
    | normal => exact ih v
    | «break» => exact pure fun _ _ => trivial
    | «return» x => exact pure fun _ later => good_mono (x := x) later good

mutual

theorem execute_does (h : CallDoes J call calls) (laps : Nat) {w : J.World} (s : Stmt)
    (own : J.Strict → s.Proper) :
    J.Does w (execute call laps s) (Trace.execute call calls laps s) J.GoodFlow := by
  unfold Trace.execute
  refine Discipline.mark own ?_
  match s with
  | .expression e =>
    exact andThen (evaluate_does h e own) fun _ _ _ _ => pure fun _ _ => trivial
  | .print e =>
    refine bind (evaluate_does h e own) fun u v _ _ => ?_
    exact andThen (printLine u v.text) fun _ _ _ _ => pure fun _ _ => trivial
  | .var name initializer =>
    refine andThen (evaluate?_does h initializer fun strict => (own strict).2) fun _ _ _ good => ?_
    exact andThen (define name (fun strict => (own strict).1) good) fun _ _ _ _ =>
      pure fun _ _ => trivial
  | .block body =>
    exact bind (blockEnv w) fun _ _ _ good => within good (executeAll_does h laps body own)
  | .ite condition thenBranch none =>
    exact bind (evaluate_does h condition fun strict => (own strict).1) fun _ _ _ _ =>
      ite (execute_does h laps thenBranch fun strict => (own strict).2.1) (pure fun _ _ => trivial)
  | .ite condition thenBranch (some elseBranch) =>
    exact bind (evaluate_does h condition fun strict => (own strict).1) fun _ _ _ _ =>
      ite (execute_does h laps thenBranch fun strict => (own strict).2.1.1)
        (execute_does h laps elseBranch fun strict => (own strict).2.2.1)
  | .while condition body =>
    exact loop_does (fun _ => evaluate_does h condition fun strict => (own strict).1)
      (fun _ => execute_does h laps body fun strict => (own strict).2.1) laps w
  | .break _ => exact pure fun _ _ => trivial
  | .function d => exact andThen (declareFunction w d own) fun _ _ _ _ => pure fun _ _ => trivial
  | .return _ value =>
    exact andThen (evaluate?_does h value own) fun _ _ _ good =>
      pure fun _ later => good_mono later good
  | .class name superclass methods =>
    exact andThen (declareClass_does h name superclass methods own) fun _ _ _ _ =>
      pure fun _ _ => trivial

theorem executeAll_does (h : CallDoes J call calls) (laps : Nat) {w : J.World} (body : List Stmt)
    (own : J.Strict → Stmt.ProperAll body) :
    J.Does w (executeAll call laps body) (Trace.executeAll call calls laps body) J.GoodFlow := by
  match body with
  | [] => exact pure fun _ _ => trivial
  | s :: ss =>
    refine bind (execute_does h laps s fun strict => (own strict).1) fun _ flow _ good => ?_
    cases flow with
    | normal => exact executeAll_does h laps ss fun strict => (own strict).2
    | «break» => exact pure fun _ _ => trivial
    | «return» x => exact pure fun _ later => good_mono (x := x) later good

end

end Trees

/-! ### Calls -/

theorem bindParameters_does {w : J.World} {env : Env} (params : List Token)
    (own : J.Strict → ∀ p ∈ params, p.Declarable) (inside : J.GoodEnv w env)
    {arguments : List Value} (all : J.AllGood w arguments) :
    J.Does w (bindParameters env params arguments) silent J.AnyValue := by
  induction params generalizing w arguments with
  | nil => exact pure fun _ _ => trivial
  | cons p ps ih =>
    cases arguments with
    | nil => exact pure fun _ _ => trivial
    | cons v vs =>
      obtain ⟨good, all⟩ := List.forall_mem_cons.1 all
      refine andThen (defineIn p (fun strict => own strict p List.mem_cons_self) inside good)
        fun _ _ later _ => ?_
      exact ih (fun strict q mem => own strict q (List.mem_cons_of_mem _ mem))
        (laterEnv later inside) (allGood_mono later all)

section Calls

variable {run : List Stmt → Eval Flow} {runs : List Stmt → Trace}
  (h : ∀ w body, (J.Strict → Stmt.ProperAll body) → J.Does w (run body) (runs body) J.GoodFlow)

include h

theorem callFunction_does {w : J.World} {closure : Closure} {arguments : List Value}
    (good : J.GoodFunction w closure) (all : J.AllGood w arguments) :
    J.Does w (callFunction run closure arguments) (Trace.callFunction runs closure arguments)
      J.Good := by
  have own := fun strict => proper strict good
  refine Discipline.mark ⟨good, all⟩ (bind (callEnv good) fun u env later inside => ?_)
  refine bind (bindParameters_does _ (fun strict => (own strict).params) inside (allGood_mono later all))
    fun v _ more _ => ?_
  refine andThen (within (laterEnv more inside) (h v _ fun strict =>
    Stmt.properAll_iff.2 (own strict).body)) fun _ flow most ended => ?_
  exact result (laterFunction (trans later (trans more most)) good) ended

theorem callMethod_does {w : J.World} {c : Class} {o : ObjectId} {method : Method}
    {arguments : List Value} (paren : Token) (receiver : J.GoodInstance w c o)
    (good : J.GoodMethod w method) (all : J.AllGood w arguments) :
    J.Does w (callMethod run c o method arguments paren) (Trace.callMethod runs c o method arguments)
      J.Good := by
  refine bind (bindMethod receiver good) fun _ bound later good => ?_
  cases bound with
  | function id closure => exact callFunction_does h good (allGood_mono later all)
  | native id op receiver => exact callNative paren good (allGood_mono later all)
  | «class» c => exact pure fun _ _ => trivial

theorem instantiate_does {w : J.World} {c : Class} {arguments : List Value} (paren : Token)
    (good : J.GoodClass w c) (all : J.AllGood w arguments) :
    J.Does w (instantiate run c arguments paren) (Trace.instantiate runs c arguments) J.Good := by
  refine Discipline.mark ⟨good, all⟩ (bind (allocate good) fun _ o later receiver => ?_)
  cases found : c.findMethod? initializerName with
  | none => exact pure fun _ more => laterInstance more receiver
  | some method =>
    have own := Discipline.found (laterClass later good) found
    exact andThen (callMethod_does h paren receiver own (allGood_mono later all)) fun _ _ more _ =>
      pure fun _ most => laterInstance (trans more most) receiver

theorem apply_does : CallDoes J (apply run) (Trace.apply runs) := by
  intro w callee arguments paren good all
  cases callee with
  | function id closure => exact callFunction_does h good all
  | native id op receiver => exact callNative paren good all
  | «class» c => exact instantiate_does h paren good all

end Calls

theorem invoke_does (fuel : Nat) : CallDoes J (invoke fuel) (Trace.invoke fuel) := by
  induction fuel with
  | zero => exact fun _ _ _ => throw
  | succ fuel ih => exact apply_does fun _ => executeAll_does ih fuel

theorem runAll_does (fuel : Nat) {w : J.World} (program : List Stmt)
    (own : J.Strict → Stmt.ProperAll program) :
    J.Does w (runAll fuel program) (Trace.runAll fuel program) J.AnyValue := by
  induction program generalizing w with
  | nil => exact pure fun _ _ => trivial
  | cons s ss ih =>
    exact bind (execute_does (invoke_does fuel) fuel s fun strict => (own strict).1) fun _ _ _ _ =>
      ih fun strict => (own strict).2

end Runs

end Discipline

end Lox
