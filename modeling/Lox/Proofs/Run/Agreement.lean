import Lox.Proofs.Run.Hooks

/-!
# Evaluators that agree

If two relations, one between computations and one between statements, hold of whatever two
instruments do at the same hook, they hold of all that the evaluator does with the one and the other
(`Agree.evaluate`, `Agree.execute`, `Agree.apply`). There is one clause for each hook.
-/

namespace Lox.Hooks

/-- The calls of both evaluators. -/
abbrev CallsAgree {ε ε' σ σ' : Type} (V : ∀ {α : Type}, EStateM ε σ α → EStateM ε' σ' α → Prop)
    (call : Call ε σ) (call' : Call ε' σ') : Prop :=
  ∀ callee arguments paren, V (call callee arguments paren) (call' callee arguments paren)

/-- The relations `V` of computations and `T` of statements are kept by every hook. -/
structure Agree {ε ε' σ σ' S S' : Type} (H : Hooks ε σ S) (H' : Hooks ε' σ' S')
    (V : ∀ {α : Type}, EStateM ε σ α → EStateM ε' σ' α → Prop) (T : S → S' → Prop) : Prop where
  pure : ∀ {α : Type} (a : α), V (Pure.pure a) (Pure.pure a)
  bind : ∀ {α β : Type} {x : EStateM ε σ α} {y : EStateM ε' σ' α} {f : α → EStateM ε σ β}
    {g : α → EStateM ε' σ' β}, V x y → (∀ a, V (f a) (g a)) → V (x >>= f) (y >>= g)
  lift : ∀ {α : Type} (x : Eval α), V (H.lift x) (H'.lift x)
  reached : ∀ {α : Type} (id : NodeId) (name : String) {x : EStateM ε σ α} {y : EStateM ε' σ' α},
    V x y → V (H.reached id name x) (H'.reached id name y)
  openFrame : ∀ origin env, V (H.openFrame origin env) (H'.openFrame origin env)
  orTrap : ∀ {α : Type} line cause (o : Option α),
    V (H.orTrap line cause o) (H'.orTrap line cause o)
  orFault : ∀ line r, V (H.orFault line r) (H'.orFault line r)
  assignClass : ∀ name c, V (H.assignClass name c) (H'.assignClass name c)
  callNative : ∀ op receiver arguments paren,
    V (H.callNative op receiver arguments paren) (H'.callNative op receiver arguments paren)
  after : ∀ {α : Type} {x : EStateM ε σ α} {y : EStateM ε' σ' α} {f : α → S} {g : α → S'},
    V x y → (∀ a, T (f a) (g a)) → T (H.after x f) (H'.after y g)
  within : ∀ env {s t}, T s t → T (H.within env s) (H'.within env t)
  normal : T H.normal H'.normal
  breaks : T H.breaks H'.breaks
  returns : ∀ v, T (H.returns v) (H'.returns v)
  andThen : ∀ {s t s' t'}, T s s' → T t t' → T (H.andThen s t) (H'.andThen s' t')
  loop : ∀ {x y s t} laps, V x y → T s t → T (H.loop x s laps) (H'.loop y t laps)

theorem rel_ite {X Y : Type} {R : X → Y → Prop} {c : Prop} [Decidable c] {x x' : X} {y y' : Y}
    (h : R x y) (k : R x' y') : R (if c then x else x') (if c then y else y') := by
  split
  · exact h
  · exact k

namespace Agree

variable {ε ε' σ σ' S S' : Type} {H : Hooks ε σ S} {H' : Hooks ε' σ' S'}
  {V : ∀ {α : Type}, EStateM ε σ α → EStateM ε' σ' α → Prop} {T : S → S' → Prop}
  (A : Agree H H' V T)

include A

theorem map {α β : Type} (f : α → β) {x : EStateM ε σ α} {y : EStateM ε' σ' α} (h : V x y) :
    V (f <$> x) (f <$> y) := by
  rw [← bind_pure_comp, ← bind_pure_comp]
  exact A.bind h fun a => A.pure (f a)

/-! ### Names and methods -/

theorem lookUp (id : NodeId) (name : Token) : V (H.lookUp id name) (H'.lookUp id name) :=
  A.reached id name.lexeme (A.lift _)

theorem assignName (id : NodeId) (name : Token) (v : Value) :
    V (H.assignName id name v) (H'.assignName id name v) :=
  A.reached id name.lexeme (A.lift _)

theorem bindMethod (c : Class) (object : ObjectId) (method : Method) :
    V (H.bindMethod c object method) (H'.bindMethod c object method) := by
  cases method with
  | declared closure =>
    exact A.bind (A.openFrame _ _) fun env => A.bind (A.lift _) fun _ =>
      A.bind (A.lift _) fun id => A.pure _
  | native op => exact A.bind (A.lift _) fun id => A.pure _

theorem getProperty (c : Class) (object : ObjectId) (name : Token) :
    V (H.getProperty c object name) (H'.getProperty c object name) := by
  refine A.bind (A.lift get) fun m => ?_
  cases m.store.field? object name.lexeme with
  | some v => exact A.pure _
  | none => exact A.bind (A.lift _) fun method => A.bind (A.bindMethod c object method) fun _ =>
      A.pure _

theorem superMethod (id : NodeId) (keyword method : Token) :
    V (H.superMethod id keyword method) (H'.superMethod id keyword method) :=
  A.reached id keyword.lexeme <| A.bind (A.lift get) fun _ => A.bind (A.orTrap _ _ _) fun _ =>
    A.bind (A.orTrap _ _ _) fun _ => A.bind (A.orTrap _ _ _) fun _ =>
    A.bind (A.orTrap _ _ _) fun (c, object) => A.bind (A.lift _) fun found =>
    A.bind (A.bindMethod c object found) fun _ => A.pure _

/-! ### Expressions -/

section Calls

variable {call : Call ε σ} {call' : Call ε' σ'}

theorem callWith (h : CallsAgree @V call call') (callee : Callable) (arguments : List Value)
    (paren : Token) :
    V (H.callWith call callee arguments paren) (H'.callWith call' callee arguments paren) :=
  rel_ite (h callee arguments paren) (A.lift _)

mutual

theorem evaluate (h : CallsAgree @V call call') : (e : Expr) →
    V (H.evaluate call e) (H'.evaluate call' e)
  | .literal l => A.pure _
  | .group inner => evaluate h inner
  | .unary operator right => A.bind (evaluate h right) fun _ => A.orFault _ _
  | .binary left operator right => A.bind (evaluate h left) fun _ =>
    A.bind (evaluate h right) fun _ => A.orFault _ _
  | .logical left operator right => A.bind (evaluate h left) fun _ =>
    rel_ite (A.pure _) (evaluate h right)
  | .variable id name => A.lookUp id name
  | .assign id name value => A.reached id name.lexeme <| A.bind (evaluate h value) fun v =>
    A.bind (A.assignName id name v) fun _ => A.pure v
  | .call callee paren arguments => A.bind (evaluate h callee) fun v => by
    cases v with
    | callable c => exact A.bind (evaluateAll h arguments) fun vs => A.callWith h c vs paren
    | nil | bool | number | string | «instance» => exact A.lift _
  | .get object name => A.bind (evaluate h object) fun v => by
    cases v with
    | «instance» c o => exact A.getProperty c o name
    | nil | bool | number | string | callable => exact A.lift _
  | .set object name value => A.bind (evaluate h object) fun v => by
    cases v with
    | «instance» c o =>
      exact A.bind (evaluate h value) fun v => A.bind (A.lift _) fun _ => A.pure v
    | nil | bool | number | string | callable => exact A.lift _
  | .this id keyword => A.lookUp id keyword
  | .super id keyword method => A.superMethod id keyword method

theorem evaluateAll (h : CallsAgree @V call call') : (es : List Expr) →
    V (H.evaluateAll call es) (H'.evaluateAll call' es)
  | [] => A.pure _
  | e :: es => A.bind (evaluate h e) fun _ => A.bind (evaluateAll h es) fun _ => A.pure _

end

theorem evaluate? (h : CallsAgree @V call call') (o : Option Expr) :
    V (H.evaluate? call o) (H'.evaluate? call' o) := by
  cases o with
  | none => exact A.pure _
  | some e => exact A.evaluate h e

/-! ### Statements -/

theorem evaluateSuperclass (h : CallsAgree @V call call') (name : Token) (o : Option Expr) :
    V (H.evaluateSuperclass call name o) (H'.evaluateSuperclass call' name o) := by
  cases o with
  | none => exact A.pure _
  | some e => exact A.bind (A.evaluate h e) fun _ => A.map some (A.lift _)

theorem methodEnv (methods : List FunctionDecl) (superclass : Option Class) :
    V (H.methodEnv methods superclass) (H'.methodEnv methods superclass) := by
  refine A.bind (A.lift get) fun m => ?_
  cases superclass with
  | none => exact A.pure _
  | some c => exact A.bind (A.openFrame _ _) fun inner => A.bind (A.lift _) fun _ => A.pure _

theorem declareClass (h : CallsAgree @V call call') (name : Token) (superclass : Option Expr)
    (methods : List FunctionDecl) :
    V (H.declareClass call name superclass methods)
      (H'.declareClass call' name superclass methods) :=
  A.bind (A.evaluateSuperclass h name superclass) fun parent => A.bind (A.lift _) fun _ =>
    A.bind (A.methodEnv methods parent) fun _ => A.bind (A.lift _) fun _ => A.assignClass _ _

mutual

theorem execute (h : CallsAgree @V call call') (laps : Nat) : (s : Stmt) →
    T (H.execute call laps s) (H'.execute call' laps s)
  | .expression e => A.after (A.evaluate h e) fun _ => A.normal
  | .print e => A.after (A.evaluate h e) fun _ => A.after (A.lift _) fun _ => A.normal
  | .var _ initializer =>
    A.after (A.evaluate? h initializer) fun _ => A.after (A.lift _) fun _ => A.normal
  | .block body => A.after (A.lift get) fun _ => A.after (A.openFrame _ _) fun env =>
    A.within env (executeAll h laps body)
  | .ite condition thenBranch none => A.after (A.evaluate h condition) fun _ =>
    rel_ite (execute h laps thenBranch) A.normal
  | .ite condition thenBranch (some elseBranch) => A.after (A.evaluate h condition) fun _ =>
    rel_ite (execute h laps thenBranch) (execute h laps elseBranch)
  | .while condition body => A.loop laps (A.evaluate h condition) (execute h laps body)
  | .break _ => A.breaks
  | .function _ => A.after (A.lift _) fun _ => A.normal
  | .return _ value => A.after (A.evaluate? h value) A.returns
  | .class name superclass methods =>
    A.after (A.declareClass h name superclass methods) fun _ => A.normal

theorem executeAll (h : CallsAgree @V call call') (laps : Nat) : (ss : List Stmt) →
    T (H.executeAll call laps ss) (H'.executeAll call' laps ss)
  | [] => A.normal
  | s :: ss => A.andThen (execute h laps s) (executeAll h laps ss)

end

end Calls

/-! ### Calls -/

/-- If the bodies of calls agree, so do the functions. -/
theorem callFunction {run : List Stmt → S} {run' : List Stmt → S'} {closure : Closure}
    (body : ∀ env, V (H.body (H.within env (run closure.declaration.body)))
      (H'.body (H'.within env (run' closure.declaration.body)))) (arguments : List Value) :
    V (H.callFunction run closure arguments) (H'.callFunction run' closure arguments) :=
  A.bind (A.openFrame _ _) fun env => A.bind (A.lift _) fun _ => A.bind (body env) fun _ => A.lift _

section Functions

variable {run : List Stmt → S} {run' : List Stmt → S'}
  (functions : ∀ closure arguments,
    V (H.callFunction run closure arguments) (H'.callFunction run' closure arguments))

include functions

theorem callMethod (c : Class) (object : ObjectId) (method : Method) (arguments : List Value)
    (paren : Token) : V (H.callMethod run c object method arguments paren)
      (H'.callMethod run' c object method arguments paren) :=
  A.bind (A.bindMethod c object method) fun bound => by
    cases bound with
    | function id closure => exact functions closure arguments
    | native id op receiver => exact A.callNative op receiver arguments paren
    | «class» c => exact A.pure _

theorem instantiate (c : Class) (arguments : List Value) (paren : Token) :
    V (H.instantiate run c arguments paren) (H'.instantiate run' c arguments paren) := by
  refine A.bind (A.lift _) fun object => ?_
  cases c.findMethod? initializerName with
  | none => exact A.pure _
  | some method =>
    exact A.bind (A.callMethod functions c object method arguments paren) fun _ => A.pure _

theorem apply : CallsAgree @V (H.apply run) (H'.apply run') := by
  intro callee arguments paren
  cases callee with
  | function id closure => exact functions closure arguments
  | native id op receiver => exact A.callNative op receiver arguments paren
  | «class» c => exact A.instantiate functions c arguments paren

end Functions

end Agree

end Lox.Hooks
