import Lox.Proofs.Run.Renaming

/-!
# Runs with other identities

A run that starts with renamed values does the same with renamed values, as long as the identities
that it gives out keep their names (`runAll_equivariant`).
-/

namespace Lox

open EStateM (Result)

/-! ### Counting on -/

/-- Identities given out are not given out again. -/
def Onward (m n : Machine) : Prop := m.nextIdentity ≤ n.nextIdentity

instance : Stable Onward where
  refl _ := Nat.le_refl _
  trans := Nat.le_trans
  within inner := inner
  identity _ := Nat.le_succ _
  print _ _ := Nat.le_refl _
  child _ _ := Nat.le_refl _
  put _ _ _ _ := Nat.le_refl _
  allocate _ := Nat.le_refl _
  setField _ _ _ _ := Nat.le_refl _
  native op receiver arguments m := by
    have all : m.store.All fun _ => True := ⟨fun _ => trivial, fun _ => trivial, fun _ => trivial⟩
    have served : Native.Serves (fun _ => True) m (op.run receiver arguments m) :=
      Native.run_all (fun _ _ => trivial) all op receiver fun _ _ => trivial
    exact Nat.le_of_eq served.nextIdentity.symm

/-- Whatever is given out from one machine to the other keeps its name. -/
def Fixes (σ : Equiv.Perm Identity) (m n : Machine) : Prop :=
  ∀ i, m.nextIdentity ≤ i → i < n.nextIdentity → σ i = i

/-- With all values renamed, `y` does what `x` does and comes to the renamed result. -/
structure Equivariant {α β : Type} (σ : Equiv.Perm Identity) (x : Eval α) (y : Eval β)
    (φ : α → β) : Prop where
  onward : Follows Onward x
  same : ∀ m m', Renamed σ m m' → Fixes σ m (final (x m)) → RenamedResult σ φ (x m) (y m')

namespace Equivariant

variable {α β γ δ : Type} {σ : Equiv.Perm Identity} {φ : α → β} {ψ : γ → δ}

/-- What gives out no identity. -/
theorem step {x : Eval α} {y : Eval β} (onward : Follows Onward x)
    (same : ∀ m m', Renamed σ m m' → RenamedResult σ φ (x m) (y m')) : Equivariant σ x y φ :=
  ⟨onward, fun m m' state _ => same m m' state⟩

theorem pure {a : α} {b : β} (same : b = φ a) : Equivariant σ (Pure.pure a) (Pure.pure b) φ := by
  subst same
  exact step (Follows.pure a) fun _ _ state => .ok state

theorem throw (e : Halt) :
    Equivariant σ (MonadExcept.throw e : Eval α) (MonadExcept.throw e) φ :=
  step (Follows.throw e) fun _ _ state => .error state

theorem fail (line : Nat) (cause : RuntimeFault) :
    Equivariant σ (Lox.fail line cause : Eval α) (Lox.fail line cause) φ :=
  throw _

theorem bind {x : Eval α} {y : Eval β} {f : α → Eval γ} {g : β → Eval δ}
    (first : Equivariant σ x y φ) (next : ∀ a, Equivariant σ (f a) (g (φ a)) ψ) :
    Equivariant σ (x >>= f) (y >>= g) ψ where
  onward := first.onward.bind fun a => (next a).onward
  same m m' state fixed := by
    have begun := first.onward m
    have start := first.same m m' state
    change Fixes σ m (final (EStateM.bind x f m)) at fixed
    show RenamedResult σ ψ (EStateM.bind x f m) (EStateM.bind y g m')
    unfold EStateM.bind at fixed ⊢
    generalize x m = r at begun start fixed ⊢
    generalize y m' = r' at start ⊢
    cases r with
    | ok a n =>
      -- The identities of `x` are among those of both.
      have ended := (next a).onward n
      cases start fun i low high => fixed i low (Nat.lt_of_lt_of_le high ended) with
      | ok state =>
        exact (next a).same _ _ state fun i low high => fixed i (Nat.le_trans begun low) high
    | error e n =>
      cases start fixed with
      | error state => exact .error state

theorem map {x : Eval α} {y : Eval β} {f : α → γ} {g : β → δ} (h : Equivariant σ x y φ)
    (along : ∀ a, g (φ a) = ψ (f a)) : Equivariant σ (f <$> x) (g <$> y) ψ := by
  rw [← bind_pure_comp, ← bind_pure_comp]
  exact h.bind fun a => pure (along a)

theorem get {f : Machine → Eval α} {g : Machine → Eval β}
    (onward : Follows Onward (MonadState.get >>= f))
    (h : ∀ m m', Renamed σ m m' → Equivariant σ (f m) (g m') φ) :
    Equivariant σ (MonadState.get >>= f) (MonadState.get >>= g) φ :=
  ⟨onward, fun m m' state fixed => (h m m' state).same m m' state fixed⟩

theorem modify {f g : Machine → Machine} (onward : ∀ m, Onward m (f m))
    (h : ∀ m m', Renamed σ m m' → Renamed σ (f m) (g m')) :
    Equivariant σ (modify f) (modify g) id :=
  step (Follows.modify onward) fun m m' state => .ok (a := ()) (h m m' state)

theorem ite {c c' : Prop} [Decidable c] [Decidable c'] {x x' : Eval α} {y y' : Eval β}
    (same : c ↔ c') (h : Equivariant σ x y φ) (k : Equivariant σ x' y' φ) :
    Equivariant σ (if c then x else x') (if c' then y else y') φ := by
  by_cases holds : c
  · rw [if_pos holds, if_pos (same.1 holds)]
    exact h
  · rw [if_neg holds, if_neg fun holds' => holds (same.2 holds')]
    exact k

theorem within {x : Eval α} {y : Eval β} (env : Env) (h : Equivariant σ x y φ) :
    Equivariant σ (Lox.within env x) (Lox.within env y) φ where
  onward := Follows.within env h.onward
  same m m' state fixed := by
    have inner := h.same { m with env } { m' with env } { state with env := rfl }
    unfold Lox.within at fixed ⊢
    dsimp only at fixed ⊢
    generalize x _ = r at inner fixed ⊢
    generalize y _ = r' at inner ⊢
    cases r with
    | ok a n =>
      cases inner fixed with
      | ok after => exact .ok { after with env := state.env }
    | error e n =>
      cases inner fixed with
      | error after => exact .error { after with env := state.env }

end Equivariant

section Runs

variable {σ : Equiv.Perm Identity}

/-! ### Steps -/

theorem childEnv_equivariant (env : Env) : Equivariant σ (childEnv env) (childEnv env) id := by
  refine .step (childEnv_follows env) fun m m' state => ?_
  have after : Renamed σ (m.mapStore fun s => (s.child env).2)
      (m'.mapStore fun s => (s.child env).2) :=
    state.mapStore (state.store.child env)
  have size : m'.store.frames.size = m.store.frames.size := state.store.scopes
  show RenamedResult σ id (.ok (m.store.frames.size :: env) _) (.ok (m'.store.frames.size :: env) _)
  rw [size]
  exact .ok after

theorem put_equivariant (frame : FrameId) (name : String) (v : Value) :
    Equivariant σ (modify (·.mapStore (·.put frame name v)))
      (modify (·.mapStore (·.put frame name (v.renamed σ)))) id :=
  .modify (fun m => Gradual.put m frame name v) fun _ _ state =>
    state.mapStore (state.store.put frame name v)

theorem defineIn_equivariant (env : Env) (name : String) (v : Value) :
    Equivariant σ (defineIn env name v) (defineIn env name (v.renamed σ)) id :=
  .step (defineIn_follows env name v) fun _ _ state =>
    .ok (a := ()) (state.mapStore (state.store.define env name v))

theorem define_equivariant (name : String) (v : Value) :
    Equivariant σ (define name v) (define name (v.renamed σ)) id :=
  .get (define_follows name v) fun m m' state => by
    rw [state.env]
    exact defineIn_equivariant m.env name v

/-- The one step where identities are given out. -/
theorem freshIdentity_equivariant : Equivariant σ freshIdentity freshIdentity σ where
  onward := freshIdentity_follows
  same m m' state fixed := by
    have after : Renamed σ { m with nextIdentity := m.nextIdentity + 1 }
        { m' with nextIdentity := m'.nextIdentity + 1 } :=
      { state with nextIdentity := congrArg (· + 1) state.nextIdentity }
    have kept : σ m.nextIdentity = m.nextIdentity := fixed _ (Nat.le_refl _) (Nat.lt_succ_self _)
    show RenamedResult σ σ (.ok m.nextIdentity _) (.ok m'.nextIdentity _)
    have same : m'.nextIdentity = σ m.nextIdentity := state.nextIdentity.trans kept.symm
    generalize m'.nextIdentity = i at same after ⊢
    subst same
    exact .ok after

theorem orFail_equivariant {α β : Type} {φ : α → β} (line : Nat) (cause : RuntimeFault)
    {a : Option α} {b : Option β} (same : b = a.map φ) :
    Equivariant σ (orFail line cause a) (orFail line cause b) φ := by
  subst same
  cases a with
  | none => exact .fail line cause
  | some a => exact .pure rfl

theorem orFault_equivariant (line : Nat) {r r' : Except RuntimeFault Value}
    (same : r' = r.map (·.renamed σ)) :
    Equivariant σ (orFault line r) (orFault line r') (Value.renamed σ) := by
  subst same
  cases r with
  | error cause => exact .fail line cause
  | ok v => exact .pure rfl

theorem printLine_equivariant (text : String) :
    Equivariant σ (printLine text) (printLine text) id := by
  refine .bind (φ := id) (.step (fun m => Gradual.print m _) fun m m' state => ?_) fun fits => ?_
  · show RenamedResult σ id (.ok (m.sink.write _).1 _) (.ok (m'.sink.write _).1 _)
    rw [state.sink]
    exact .ok { state with sink := rfl }
  · cases fits with
    | true => exact .pure rfl
    | false => exact .throw _

theorem callNative_equivariant (op : Native) (receiver : Option ObjectId) (vs : List Value)
    (paren : Token) :
    Equivariant σ (callNative op receiver vs paren)
      (callNative op receiver (vs.map (·.renamed σ)) paren) (Value.renamed σ) := by
  refine .step (callNative_follows op receiver vs paren) fun m m' state => ?_
  have done := run_renamed state op receiver vs
  unfold callNative
  generalize op.run receiver vs m = r at done ⊢
  generalize op.run receiver _ m' = r' at done ⊢
  cases done with
  | ok after => exact .ok after
  | error after => exact .error after

/-! ### Names and methods -/

theorem lookUp_equivariant (node : NodeId) (name : Token) :
    Equivariant σ (lookUp node name) (lookUp node name) (Value.renamed σ) :=
  .get (lookUp_follows node name) fun _ _ state => orFail_equivariant _ _ (state.valueAt? node _)

theorem assignName_equivariant (node : NodeId) (name : Token) (v : Value) :
    Equivariant σ (assignName node name v) (assignName node name (v.renamed σ)) id := by
  refine .get (assignName_follows node name v) fun m m' state => ?_
  rw [state.ownerOf?]
  cases m.ownerOf? node name.lexeme with
  | some frame => exact put_equivariant frame _ v
  | none => exact .fail _ _

theorem bindMethod_equivariant (c : Class) (object : ObjectId) (method : Method) :
    Equivariant σ (bindMethod c object method) (bindMethod (c.renamed σ) object method)
      (Callable.renamed σ) := by
  cases method with
  | declared closure =>
    exact (childEnv_equivariant closure.env).bind fun env =>
      (defineIn_equivariant env "this" (.instance c object)).bind fun _ =>
      freshIdentity_equivariant.bind fun _ => .pure rfl
  | native op =>
    exact freshIdentity_equivariant.bind fun _ => .pure rfl

theorem getProperty_equivariant (c : Class) (object : ObjectId) (name : Token) :
    Equivariant σ (getProperty c object name) (getProperty (c.renamed σ) object name)
      (Value.renamed σ) := by
  refine .get (getProperty_follows c object name) fun m m' state => ?_
  rw [state.store.field]
  cases m.store.field? object name.lexeme with
  | some v => exact .pure rfl
  | none =>
    have found : (c.renamed σ).findMethod? name.lexeme = (c.findMethod? name.lexeme).map id := by
      rw [c.findMethod?_renamed, Option.map_id]
      rfl
    exact (orFail_equivariant _ _ found).bind fun method =>
      (bindMethod_equivariant c object method).bind fun _ => .pure rfl

theorem superMethod_equivariant (node : NodeId) (keyword method : Token) :
    Equivariant σ (superMethod node keyword method) (superMethod node keyword method)
      (Value.renamed σ) := by
  refine .get (superMethod_follows node keyword method) fun m m' state => ?_
  have place : m'.distances[node]? = (m.distances[node]?).map id := by
    rw [state.distances, Option.map_id]
    rfl
  refine (orFail_equivariant _ _ place).bind fun distance => ?_
  refine (orFail_equivariant (φ := Value.renamed σ) _ _ ?_).bind fun found => ?_
  · rw [state.env]
    exact state.store.getAt? m.env distance _
  refine (orFail_equivariant _ _ (classOf?_renamed σ found)).bind fun superclass => ?_
  refine (orFail_equivariant (φ := fun p : Class × ObjectId => (p.1.renamed σ, p.2)) _ _ ?_).bind
    fun (c, object) => ?_
  · rw [state.env, id, state.store.getAt?]
    cases m.store.getAt? m.env (distance - 1) "this" with
    | none => rfl
    | some v => exact instanceOf?_renamed σ v
  have found : (superclass.renamed σ).findMethod? method.lexeme =
      (superclass.findMethod? method.lexeme).map id := by
    rw [superclass.findMethod?_renamed, Option.map_id]
    rfl
  exact (orFail_equivariant _ _ found).bind fun method =>
    (bindMethod_equivariant c object method).bind fun _ => .pure rfl

/-! ### Expressions -/

/-- Calls of renamed callables with renamed arguments. -/
def CallEquivariant (σ : Equiv.Perm Identity) (call : Invoke) : Prop :=
  ∀ c vs paren, Equivariant σ (call c vs paren) (call (c.renamed σ) (vs.map (·.renamed σ)) paren)
    (Value.renamed σ)

theorem CallEquivariant.onward {call : Invoke} (h : CallEquivariant σ call) :
    CallFollows Onward call :=
  fun c vs paren => (h c vs paren).onward

theorem callWith_equivariant {call : Invoke} (h : CallEquivariant σ call) (c : Callable)
    (vs : List Value) (paren : Token) :
    Equivariant σ (callWith call c vs paren)
      (callWith call (c.renamed σ) (vs.map (·.renamed σ)) paren) (Value.renamed σ) := by
  unfold callWith
  rw [c.arity_renamed, List.length_map]
  exact .ite Iff.rfl (h c vs paren) (.fail _ _)

mutual

theorem evaluate_equivariant {call : Invoke} (h : CallEquivariant σ call) : (e : Expr) →
    Equivariant σ (evaluate call e) (evaluate call e) (Value.renamed σ)
  | .literal l => .pure (Value.ofLiteral_renamed σ l).symm
  | .group inner => (evaluate_equivariant h inner :)
  | .unary operator right => (evaluate_equivariant h right).bind fun v =>
    orFault_equivariant _ (v.applyUnary_renamed σ operator)
  | .binary left operator right => (evaluate_equivariant h left).bind fun v =>
    (evaluate_equivariant h right).bind fun w =>
    orFault_equivariant _ (v.applyBinary_renamed σ w operator)
  | .logical left operator right => (evaluate_equivariant h left).bind fun v =>
    .ite (by rw [v.decides_renamed]) (.pure rfl) (evaluate_equivariant h right)
  | .variable node name => lookUp_equivariant node name
  | .assign node name value => (evaluate_equivariant h value).bind fun v =>
    (assignName_equivariant node name v).bind fun _ => .pure rfl
  | .call callee paren arguments => (evaluate_equivariant h callee).bind fun v => by
    cases v with
    | callable c =>
      exact (evaluateAll_equivariant h arguments).bind fun vs => callWith_equivariant h c vs paren
    | nil | bool | number | string | «instance» => exact .fail _ _
  | .get object name => (evaluate_equivariant h object).bind fun v => by
    cases v with
    | «instance» c o => exact getProperty_equivariant c o name
    | nil | bool | number | string | callable => exact .fail _ _
  | .set object name value => (evaluate_equivariant h object).bind fun v => by
    cases v with
    | «instance» c o =>
      exact (evaluate_equivariant h value).bind fun v =>
        (Equivariant.modify (fun m => Gradual.setField m o name.lexeme v) fun _ _ state =>
          state.mapStore (state.store.setField o name.lexeme v)).bind fun _ => .pure rfl
    | nil | bool | number | string | callable => exact .fail _ _
  | .this node keyword => lookUp_equivariant node keyword
  | .super node keyword method => superMethod_equivariant node keyword method

theorem evaluateAll_equivariant {call : Invoke} (h : CallEquivariant σ call) : (es : List Expr) →
    Equivariant σ (evaluateAll call es) (evaluateAll call es) (List.map (·.renamed σ))
  | [] => .pure rfl
  | e :: es => (evaluate_equivariant h e).bind fun _ =>
    (evaluateAll_equivariant h es).bind fun _ => .pure rfl

end

theorem evaluate?_equivariant {call : Invoke} (h : CallEquivariant σ call) (o : Option Expr) :
    Equivariant σ (evaluate? call o) (evaluate? call o) (Value.renamed σ) := by
  cases o with
  | none => exact .pure rfl
  | some e => exact evaluate_equivariant h e

/-! ### Statements -/

theorem declareFunction_equivariant (d : FunctionDecl) :
    Equivariant σ (declareFunction d) (declareFunction d) id :=
  freshIdentity_equivariant.bind fun i =>
    .get (Follows.get fun _ => define_follows _ _) fun m m' state => by
      rw [state.env]
      exact define_equivariant _ (.callable (.function i ⟨d, m.env, false⟩))

theorem evaluateSuperclass_equivariant {call : Invoke} (h : CallEquivariant σ call) (name : Token)
    (o : Option Expr) :
    Equivariant σ (evaluateSuperclass call name o) (evaluateSuperclass call name o)
      (Option.map (·.renamed σ)) := by
  cases o with
  | none => exact .pure rfl
  | some e =>
    exact (evaluate_equivariant h e).bind fun v =>
      (orFail_equivariant _ _ (classOf?_renamed σ v)).map fun _ => rfl

theorem methodEnv_equivariant (superclass : Option Class) :
    Equivariant σ (methodEnv superclass) (methodEnv (superclass.map (·.renamed σ))) id := by
  refine .get (methodEnv_follows superclass) fun m m' state => ?_
  cases superclass with
  | none =>
    dsimp only [Option.map_none]
    rw [state.env]
    exact .pure rfl
  | some c =>
    dsimp only [Option.map_some]
    rw [state.env]
    exact (childEnv_equivariant m.env).bind fun inner =>
      (defineIn_equivariant inner "super" (.callable (.class c))).bind fun _ =>
      .pure rfl

theorem assignClass_equivariant (name : Token) (c : Class) :
    Equivariant σ (assignClass name c) (assignClass name (c.renamed σ)) id := by
  refine .get (assignClass_follows name c) fun m m' state => ?_
  have owners : m'.store.owner? m'.env name.lexeme = m.store.owner? m.env name.lexeme := by
    unfold Store.owner?
    rw [state.store.binds, state.env]
  rw [owners]
  cases m.store.owner? m.env name.lexeme with
  | some frame => exact put_equivariant frame _ (.callable (.class c))
  | none => exact .fail _ _

theorem declareClass_equivariant {call : Invoke} (h : CallEquivariant σ call) (name : Token)
    (superclass : Option Expr) (methods : List FunctionDecl) :
    Equivariant σ (declareClass call name superclass methods)
      (declareClass call name superclass methods) id :=
  (evaluateSuperclass_equivariant h name superclass).bind fun parent =>
    (define_equivariant name.lexeme .nil).bind fun _ =>
    (methodEnv_equivariant parent).bind fun env => freshIdentity_equivariant.bind fun i => by
      have made := assignClass_equivariant (σ := σ) name
        ⟨i, name.lexeme, parent, methodTable env methods⟩
      rw [Class.renamed_mk] at made
      exact made

theorem loop_equivariant {condition : Eval Value} {body : Eval Flow}
    (test : Equivariant σ condition condition (Value.renamed σ))
    (lap : Equivariant σ body body (Flow.renamed σ)) (laps : Nat) :
    Equivariant σ (loop condition body laps) (loop condition body laps) (Flow.renamed σ) := by
  induction laps with
  | zero => exact .throw _
  | succ laps ih =>
    refine test.bind fun v => .ite (by rw [v.isTruthy_renamed]) (lap.bind fun flow => ?_)
      (.pure rfl)
    cases flow with
    | normal => exact ih
    | «break» => exact .pure rfl
    | «return» v => exact .pure rfl

mutual

theorem execute_equivariant {call : Invoke} (h : CallEquivariant σ call) (laps : Nat) :
    (s : Stmt) → Equivariant σ (execute call laps s) (execute call laps s) (Flow.renamed σ)
  | .expression e => (evaluate_equivariant h e).bind fun _ => .pure rfl
  | .print e => (evaluate_equivariant h e).bind fun v => by
    rw [v.text_renamed]
    exact (printLine_equivariant v.text).bind fun _ => .pure rfl
  | .var name initializer => (evaluate?_equivariant h initializer).bind fun v =>
    (define_equivariant name.lexeme v).bind fun _ => .pure rfl
  | .block body =>
    .get (execute_follows h.onward laps (.block body)) fun m m' state => by
      rw [state.env]
      exact (childEnv_equivariant m.env).bind fun env =>
        .within env (executeAll_equivariant h laps body)
  | .ite condition thenBranch none => (evaluate_equivariant h condition).bind fun v =>
    .ite (by rw [v.isTruthy_renamed]) (execute_equivariant h laps thenBranch) (.pure rfl)
  | .ite condition thenBranch (some elseBranch) => (evaluate_equivariant h condition).bind fun v =>
    .ite (by rw [v.isTruthy_renamed]) (execute_equivariant h laps thenBranch)
      (execute_equivariant h laps elseBranch)
  | .while condition body =>
    loop_equivariant (evaluate_equivariant h condition) (execute_equivariant h laps body) laps
  | .break _ => .pure rfl
  | .function d => (declareFunction_equivariant d).bind fun _ => .pure rfl
  | .return _ value => (evaluate?_equivariant h value).bind fun _ => .pure rfl
  | .class name superclass methods =>
    (declareClass_equivariant h name superclass methods).bind fun _ => .pure rfl

theorem executeAll_equivariant {call : Invoke} (h : CallEquivariant σ call) (laps : Nat) :
    (ss : List Stmt) →
    Equivariant σ (executeAll call laps ss) (executeAll call laps ss) (Flow.renamed σ)
  | [] => .pure rfl
  | s :: ss => (execute_equivariant h laps s).bind fun flow => by
    cases flow with
    | normal => exact executeAll_equivariant h laps ss
    | «break» => exact .pure rfl
    | «return» v => exact .pure rfl

end

/-! ### Calls -/

theorem bindParameters_equivariant (env : Env) (params : List Token) (vs : List Value) :
    Equivariant σ (bindParameters env params vs)
      (bindParameters env params (vs.map (·.renamed σ))) id := by
  induction params generalizing vs with
  | nil => exact .pure rfl
  | cons p ps ih =>
    cases vs with
    | nil => exact .pure rfl
    | cons v vs => exact (defineIn_equivariant env p.lexeme v).bind fun _ => ih vs

theorem result_equivariant (closure : Closure) (flow : Flow) :
    Equivariant σ (result closure flow) (result closure (flow.renamed σ)) (Value.renamed σ) := by
  unfold result
  refine .ite Iff.rfl (.get (Follows.get fun _ => Follows.pure _) fun m m' state => ?_) ?_
  · rw [state.store.getAt?]
    cases m.store.getAt? closure.env 0 "this" with
    | none => exact .pure rfl
    | some v => exact .pure rfl
  · cases flow with
    | «return» v => exact .pure rfl
    | normal | «break» => exact .pure rfl

section Calls

variable {run : List Stmt → Eval Flow}
  (h : ∀ body, Equivariant σ (run body) (run body) (Flow.renamed σ))

include h

theorem callFunction_equivariant (closure : Closure) (vs : List Value) :
    Equivariant σ (callFunction run closure vs) (callFunction run closure (vs.map (·.renamed σ)))
      (Value.renamed σ) :=
  (childEnv_equivariant closure.env).bind fun env =>
    (bindParameters_equivariant env closure.declaration.params vs).bind fun _ =>
    (Equivariant.within env (h closure.declaration.body)).bind fun flow =>
    result_equivariant closure flow

theorem callMethod_equivariant (c : Class) (object : ObjectId) (method : Method)
    (vs : List Value) (paren : Token) :
    Equivariant σ (callMethod run c object method vs paren)
      (callMethod run (c.renamed σ) object method (vs.map (·.renamed σ)) paren)
      (Value.renamed σ) :=
  (bindMethod_equivariant c object method).bind fun bound => by
    cases bound with
    | function _ closure => exact callFunction_equivariant h closure vs
    | native _ op receiver => exact callNative_equivariant op receiver vs paren
    | «class» c => exact .pure rfl

theorem instantiate_equivariant (c : Class) (vs : List Value) (paren : Token) :
    Equivariant σ (instantiate run c vs paren)
      (instantiate run (c.renamed σ) (vs.map (·.renamed σ)) paren) (Value.renamed σ) := by
  have allocates : Equivariant σ (modifyGet (·.withStore (·.allocate)) : Eval ObjectId)
      (modifyGet (·.withStore (·.allocate))) id := by
    refine .step (fun m => Gradual.allocate m) fun m m' state => ?_
    have after : Renamed σ (m.mapStore (·.allocate.2)) (m'.mapStore (·.allocate.2)) :=
      state.mapStore state.store.allocate
    have count : m'.store.objects.size = m.store.objects.size := state.store.count
    show RenamedResult σ id (.ok m.store.objects.size _) (.ok m'.store.objects.size _)
    rw [count]
    exact .ok after
  refine allocates.bind fun object => ?_
  rw [c.findMethod?_renamed]
  cases c.findMethod? initializerName with
  | none => exact .pure rfl
  | some method =>
    exact (callMethod_equivariant h c object method vs paren).bind fun _ =>
      .pure rfl

theorem apply_equivariant : CallEquivariant σ (apply run) := by
  intro c vs paren
  cases c with
  | function _ closure => exact callFunction_equivariant h closure vs
  | native _ op receiver => exact callNative_equivariant op receiver vs paren
  | «class» c => exact instantiate_equivariant h c vs paren

end Calls

theorem invoke_equivariant (fuel : Nat) : CallEquivariant σ (invoke fuel) := by
  induction fuel with
  | zero => exact fun _ _ _ => .throw _
  | succ fuel ih => exact apply_equivariant fun body => executeAll_equivariant ih fuel body

theorem runAll_equivariant (fuel : Nat) (program : List Stmt) :
    Equivariant σ (runAll fuel program) (runAll fuel program) id := by
  induction program with
  | nil => exact .pure rfl
  | cons s ss ih => exact (execute_equivariant (invoke_equivariant fuel) fuel s).bind fun _ => ih

end Runs

end Lox
