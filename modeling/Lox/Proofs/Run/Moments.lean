import Lox.Proofs.Run.Trace

/-!
# Properties of traces

A property of traces that passes from parts to wholes holds of the traces of all expressions and
statements, once it holds of the calls that have as many arguments as they take
(`Trace.Closed.evaluate`, `Trace.Closed.execute`).
-/

namespace Lox.Trace

/-- A property of traces that is kept when they are put together. It may depend on what is computed
in between being of some kind. -/
structure Closed (call : Invoke) (calls : OfCalls) (Kind : {α : Type} → Eval α → Prop)
    (P : Trace → Prop) : Prop where
  silent : P silent
  expression : ∀ e {t : Trace}, P t → P (mark (.expression e) t)
  statement : ∀ s {t : Trace}, P t → P (mark (.statement s) t)
  output : ∀ text, P (mark (.output text) Trace.silent)
  bind : ∀ {α : Type} {t : Trace} {x : Eval α} {next : α → Trace}, P t → Kind x →
    (∀ a, P (next a)) → P (t.bind x next)
  block : ∀ {t : Trace}, P t → P (Trace.silent.bind blockEnv fun env => t.within env)
  calls : ∀ callee arguments paren, arguments.length = callee.arity →
    P (calls callee arguments paren)
  evaluated : ∀ e, Kind (Lox.evaluate call e)
  allEvaluated : ∀ es, Kind (Lox.evaluateAll call es)
  executed : ∀ laps s, Kind (Lox.execute call laps s)

namespace Closed

section Trees

variable {call : Invoke} {calls : OfCalls} {Kind : {α : Type} → Eval α → Prop} {P : Trace → Prop}
  (h : Closed call calls Kind P)

theorem branch {c : Prop} [Decidable c] {t u : Trace} (first : P t) (second : P u) :
    P (if c then t else u) := by
  split
  · exact first
  · exact second

include h

/-! ### Expressions -/

theorem callWith (callee : Callable) (arguments : List Value) (paren : Token) :
    P (Trace.callWith calls callee arguments paren) := by
  unfold Trace.callWith
  split
  · next fits => exact h.calls callee arguments paren fits
  · exact h.silent

mutual

theorem evaluate : (e : Expr) → P (Trace.evaluate call calls e)
  | .literal _ | .variable _ _ | .this _ _ | .super _ _ _ => by
    rw [Trace.evaluate]
    exact h.expression _ h.silent
  | .group inner => by
    rw [Trace.evaluate]
    exact h.expression _ (evaluate inner)
  | .unary _ right => by
    rw [Trace.evaluate]
    exact h.expression _ (evaluate right)
  | .binary left _ right => by
    rw [Trace.evaluate]
    exact h.expression _ (h.bind (evaluate left) (h.evaluated left) fun _ => evaluate right)
  | .logical left _ right => by
    rw [Trace.evaluate]
    exact h.expression _ (h.bind (evaluate left) (h.evaluated left) fun _ =>
      branch h.silent (evaluate right))
  | .assign _ _ value => by
    rw [Trace.evaluate]
    exact h.expression _ (evaluate value)
  | .call callee paren arguments => by
    rw [Trace.evaluate]
    refine h.expression _ (h.bind (evaluate callee) (h.evaluated callee) fun v => ?_)
    cases v with
    | callable c =>
      exact h.bind (evaluateAll arguments) (h.allEvaluated arguments) fun vs =>
        h.callWith c vs paren
    | nil | bool | number | string | «instance» => exact h.silent
  | .get object _ => by
    rw [Trace.evaluate]
    exact h.expression _ (evaluate object)
  | .set object _ value => by
    rw [Trace.evaluate]
    refine h.expression _ (h.bind (evaluate object) (h.evaluated object) fun v => ?_)
    cases v with
    | «instance» => exact evaluate value
    | nil | bool | number | string | callable => exact h.silent

theorem evaluateAll : (es : List Expr) → P (Trace.evaluateAll call calls es)
  | [] => by
    rw [Trace.evaluateAll]
    exact h.silent
  | e :: es => by
    rw [Trace.evaluateAll]
    exact h.bind (evaluate e) (h.evaluated e) fun _ => evaluateAll es

end

theorem evaluate? : (o : Option Expr) → P (Trace.evaluate? call calls o)
  | none => h.silent
  | some e => h.evaluate e

/-! ### Statements -/

theorem loop {condition : Eval Value} {body : Eval Flow} {test lap : Trace}
    (tested : Kind condition) (lapped : Kind body) (first : P test) (second : P lap) (laps : Nat) :
    P (Trace.loop condition body test lap laps) := by
  induction laps with
  | zero => exact h.silent
  | succ laps ih =>
    refine h.bind first tested fun v => branch (h.bind second lapped fun flow => ?_) h.silent
    cases flow with
    | normal => exact ih
    | «break» | «return» => exact h.silent

variable (laps : Nat)

mutual

theorem execute : (s : Stmt) → P (Trace.execute call calls laps s)
  | .expression e => by
    rw [Trace.execute]
    exact h.statement _ (h.evaluate e)
  | .print e => by
    rw [Trace.execute]
    exact h.statement _ (h.bind (h.evaluate e) (h.evaluated e) fun v => h.output v.text)
  | .var _ initializer => by
    rw [Trace.execute]
    exact h.statement _ (h.evaluate? initializer)
  | .block body => by
    rw [Trace.execute]
    exact h.statement _ (h.block (executeAll body))
  | .ite condition thenBranch none => by
    rw [Trace.execute]
    exact h.statement _ (h.bind (h.evaluate condition) (h.evaluated condition) fun _ =>
      branch (execute thenBranch) h.silent)
  | .ite condition thenBranch (some elseBranch) => by
    rw [Trace.execute]
    exact h.statement _ (h.bind (h.evaluate condition) (h.evaluated condition) fun _ =>
      branch (execute thenBranch) (execute elseBranch))
  | .while condition body => by
    rw [Trace.execute]
    exact h.statement _ (h.loop (h.evaluated condition) (h.executed laps body)
      (h.evaluate condition) (execute body) laps)
  | .break _ | .function _ => by
    rw [Trace.execute]
    exact h.statement _ h.silent
  | .return _ value => by
    rw [Trace.execute]
    exact h.statement _ (h.evaluate? value)
  | .class _ superclass _ => by
    rw [Trace.execute]
    exact h.statement _ (h.evaluate? superclass)

theorem executeAll : (ss : List Stmt) → P (Trace.executeAll call calls laps ss)
  | [] => by
    rw [Trace.executeAll]
    exact h.silent
  | s :: ss => by
    rw [Trace.executeAll]
    refine h.bind (execute s) (h.executed laps s) fun flow => ?_
    cases flow with
    | normal => exact executeAll ss
    | «break» | «return» => exact h.silent

end

end Trees

end Closed

end Lox.Trace
