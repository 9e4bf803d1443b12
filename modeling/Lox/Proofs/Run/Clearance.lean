import Lox.Proofs.Run.Landing
import Lox.Proofs.Run.Untrapped

/-!
# Runs that clear all traps

A run with traps and a watched run come to the same, whatever the traps are, if every function that
was called has operators of the grammar and every `super` that was reached found its class and its
instance (`runAll_clears`). Both are conditions on the log at the end. The result has to tell that
no routine of lists missed its list.
-/

namespace Lox.Watched

open EStateM (Result)
open Grammar (bind_of_ok bind_of_error)
open Trapped (Trap)

/-! ### The relation -/

/-- Every function that was called has operators of the grammar, and every `super` among `S` that
was reached got as far as the look for its method. -/
structure Fit (S : SuperSet) (log : List Event) : Prop where
  called : ∀ d env, .opened (.call d) env ∈ log → d.Checked S
  supers : ∀ id keyword method m, S id keyword method → .reached id keyword.lexeme m ∈ log →
    ∃ classes c o, Taken m classes c o method (Lox.superMethod id keyword method m)

theorem Fit.earlier {S : SuperSet} {log log' : List Event} (h : Fit S log')
    (before : log <:+ log') : Fit S log :=
  ⟨fun d env opened => h.called d env (before.subset opened),
    fun id keyword method m known reached => h.supers id keyword method m known
      (before.subset reached)⟩

/-- No routine of lists missed its list. -/
def Complete {α : Type} : Result Halt State α → Prop
  | .ok _ _ => True
  | .error e _ => e.Proper

/-- The log, the frames and the objects have only grown, and if all is well at the end, the run with
traps came to the same. -/
structure Cleared (S : SuperSet) {α : Type} (w : State) (r : Result Halt State α)
    (r' : Result Halt Machine α) : Prop where
  grown : w.log <:+ (after r).log
  grows : Grows w.machine (after r).machine
  same : Fit S (after r).log → Complete r → r' = forget r

def Clears (S : SuperSet) {α : Type} (x : Watch α) (y : Eval α) : Prop :=
  ∀ w, Rooted w.machine → Cleared S w (x w) (y w.machine)

section Rules

variable {S : SuperSet} {α β : Type}

theorem Cleared.bind {w : State} {x : Watch α} {y : Eval α}
    {f : α → Watch β} {g : α → Eval β} (first : Cleared S w (x w) (y w.machine))
    (next : ∀ a w', x w = .ok a w' → w.log <:+ w'.log → Grows w.machine w'.machine →
      Cleared S w' (f a w') (g a w'.machine)) :
    Cleared S w ((x >>= f) w) ((y >>= g) w.machine) := by
  obtain ⟨grown, grows, begun⟩ := first
  cases ran : x w with
  | error e w' =>
    rw [ran] at grown grows begun
    rw [bind_of_error ran]
    exact ⟨grown, grows, fun fit complete => bind_of_error (begun fit complete)⟩
  | ok a w' =>
    rw [ran] at grown grows begun
    rw [bind_of_ok ran]
    obtain ⟨further, more, rest⟩ := next a w' ran grown grows
    refine ⟨grown.trans further, grows.trans more, fun fit complete => ?_⟩
    rw [bind_of_ok (begun (fit.earlier further) trivial)]
    exact rest fit complete

theorem Cleared.openFrame (w : State) (origin : Binding.Origin) (env : Env) :
    Cleared S w (Watched.openFrame origin env w) (childEnv env w.machine) :=
  ⟨List.suffix_cons _ _, childEnv_follows env w.machine, fun _ _ => rfl⟩

namespace Clears

theorem pure (a : α) : Clears S (Pure.pure a) (Pure.pure a) :=
  fun _ _ => ⟨List.suffix_refl _, .refl _, fun _ _ => rfl⟩

theorem throw (e : Halt) : Clears S (MonadExcept.throw e : Watch α) (MonadExcept.throw e) :=
  fun _ _ => ⟨List.suffix_refl _, .refl _, fun _ _ => rfl⟩

/-- A step in which there is no trap. -/
theorem lift {x : Eval α} (h : Follows Grows x) : Clears S (Watched.lift x) x := by
  intro w _
  have grows := h w.machine
  unfold Watched.lift
  cases ran : x w.machine with
  | ok a n | error e n =>
    rw [ran] at grows
    exact ⟨List.suffix_refl _, grows, fun _ _ => rfl⟩

theorem bind {x : Watch α} {y : Eval α} {f : α → Watch β} {g : α → Eval β} (first : Clears S x y)
    (next : ∀ a, Clears S (f a) (g a)) : Clears S (x >>= f) (y >>= g) :=
  fun w rooted => (first w rooted).bind fun a w' _ _ grows => next a w' (rooted.later grows)

theorem map {x : Watch α} {y : Eval α} (f : α → β) (h : Clears S x y) :
    Clears S (f <$> x) (f <$> y) := by
  rw [← bind_pure_comp, ← bind_pure_comp]
  exact bind h fun a => pure (f a)

theorem look {f : Machine → Watch β} {g : Machine → Eval β} (h : ∀ m, Clears S (f m) (g m)) :
    Clears S (Watched.lift MonadState.get >>= f) ((MonadState.get : Eval Machine) >>= g) :=
  fun w rooted => h w.machine w rooted

theorem ite {c : Prop} [Decidable c] {x x' : Watch α} {y y' : Eval α} (h : Clears S x y)
    (k : Clears S x' y') : Clears S (if c then x else x') (if c then y else y') := by
  split
  · exact h
  · exact k

/-- The log at the end tells that the node was reached. -/
theorem reached {id : NodeId} {name : String} {f : Unit → Watch β} {y y' : Eval β}
    (h : Clears S (f ()) y)
    (same : ∀ log m, Fit S log → .reached id name m ∈ log → y' m = y m) :
    Clears S (Watched.reach id name >>= f) y' := by
  intro w rooted
  obtain ⟨grown, grows, come⟩ := h { w with log := .reached id name w.machine :: w.log } rooted
  refine ⟨(List.suffix_cons _ _).trans grown, grows, fun fit complete => ?_⟩
  rw [same _ w.machine fit (grown.subset List.mem_cons_self)]
  exact come fit complete

theorem reach {f : Unit → Watch β} {y : Eval β} (id : NodeId) (name : String)
    (h : Clears S (f ()) y) : Clears S (Watched.reach id name >>= f) y :=
  reached h fun _ _ _ _ => rfl

theorem openFrame (origin : Binding.Origin) (env : Env) :
    Clears S (Watched.openFrame origin env) (childEnv env) :=
  fun w _ => Cleared.openFrame w origin env

/-- A trap that the machine is away from. -/
theorem of_eq {x : Watch α} {y y' : Eval α} (h : Clears S x y)
    (same : ∀ m, Rooted m → y' m = y m) : Clears S x y' :=
  fun w rooted => (same w.machine rooted).symm ▸ h w rooted

end Clears

theorem Cleared.within {x : Watch α} {y : Eval α} {w : State} {env : Env}
    (h : Cleared S { w with machine := { w.machine with env } }
      (x { w with machine := { w.machine with env } }) (y { w.machine with env })) :
    Cleared S w (Watched.within env x w) (Lox.within env y w.machine) := by
  obtain ⟨grown, grows, same⟩ := h
  unfold Watched.within Lox.within
  dsimp only at grown grows same ⊢
  generalize x _ = r, y _ = r' at grown grows same ⊢
  cases r with
  | ok a w' =>
    refine ⟨grown, ⟨rfl, grows.store⟩, fun fit _ => ?_⟩
    rw [same fit trivial]
    rfl
  | error e w' =>
    refine ⟨grown, ⟨rfl, grows.store⟩, fun fit complete => ?_⟩
    rw [same fit complete]
    rfl

/-- The scope is there from then on. -/
theorem Cleared.opened {w : State} {origin : Binding.Origin} {outer : Env} {f : Env → Watch β}
    {g : Env → Eval β} (next : ∀ env w', .opened origin env ∈ w'.log →
      Rooted { w'.machine with env } → Grows w.machine w'.machine →
      Cleared S w' (f env w') (g env w'.machine)) :
    Cleared S w ((Watched.openFrame origin outer >>= f) w) ((childEnv outer >>= g) w.machine) := by
  refine (Cleared.openFrame w origin outer).bind fun env w' opened _ grows => ?_
  cases opened
  refine next _ _ List.mem_cons_self ⟨_, outer, rfl, ?_⟩ grows
  exact Nat.lt_of_lt_of_eq (Nat.lt_succ_self _) (Array.size_push _).symm

end Rules

/-! ### Names and methods -/

section Steps

variable {S : SuperSet} (trap : Trap)

theorem lookUp_clears (id : NodeId) (name : Token) :
    Clears S (lookUp id name) (Lox.lookUp id name) :=
  Clears.reach id name.lexeme (Clears.lift (lookUp_follows id name))

theorem assignName_clears (id : NodeId) (name : Token) (v : Value) :
    Clears S (assignName id name v) (Lox.assignName id name v) :=
  Clears.reach id name.lexeme (Clears.lift (assignName_follows id name v))

theorem bindMethod_clears (c : Class) (object : ObjectId) (method : Method) :
    Clears S (bindMethod c object method) (Lox.bindMethod c object method) := by
  cases method with
  | declared closure =>
    exact (Clears.openFrame _ _).bind fun env =>
      (Clears.lift (defineIn_follows _ _ _)).bind fun _ =>
      (Clears.lift freshIdentity_follows).bind fun id => Clears.pure _
  | native op => exact (Clears.lift freshIdentity_follows).bind fun id => Clears.pure _

theorem getProperty_clears (c : Class) (object : ObjectId) (name : Token) :
    Clears S (getProperty c object name) (Lox.getProperty c object name) := by
  refine Clears.look fun m => ?_
  cases m.store.field? object name.lexeme with
  | some v => exact Clears.pure _
  | none =>
    exact (Clears.lift (orFail_follows _ _ _)).bind fun method =>
      (bindMethod_clears c object method).bind fun _ => Clears.pure _

theorem superMethod_clears {id : NodeId} {keyword method : Token} (known : S id keyword method) :
    Clears S (superMethod id keyword method) (Trapped.superMethod trap id keyword method) := by
  refine Clears.reached (y := Lox.superMethod id keyword method) (Clears.look fun m => ?_)
    fun log m fit reached => ?_
  · exact (Clears.lift (orFail_follows _ _ _)).bind fun distance =>
      (Clears.lift (orFail_follows _ _ _)).bind fun found =>
      (Clears.lift (orFail_follows _ _ _)).bind fun superclass =>
      (Clears.lift (orFail_follows _ _ _)).bind fun (c, object) =>
      (Clears.lift (orFail_follows _ _ _)).bind fun found =>
      (bindMethod_clears c object found).bind fun bound => Clears.pure _
  · obtain ⟨classes, c, o, taken⟩ := fit.supers id keyword method m known reached
    exact Trapped.superMethod_cleared trap taken

theorem orFault_clears (line : Nat) {r : Except RuntimeFault Value} (h : Trapped.Operable r) :
    Clears S (lift (Lox.orFault line r)) (Trapped.orFault trap line r) :=
  (Clears.lift (orFault_follows line r)).of_eq fun _ _ => by
    rw [Trapped.orFault_cleared trap line h]

/-- If the list is missed, the result tells. -/
theorem callNative_clears (op : Native) (receiver : Option ObjectId) (arguments : List Value)
    (paren : Token) :
    Clears S (lift (Lox.callNative op receiver arguments paren))
      (Trapped.callNative trap op receiver arguments paren) := by
  intro w _
  have grows := callNative_follows (S := Grows) op receiver arguments paren w.machine
  unfold lift Lox.callNative Trapped.callNative at *
  cases ran : op.run receiver arguments w.machine with
  | ok v n =>
    rw [ran] at grows
    exact ⟨List.suffix_refl _, grows, fun _ _ => rfl⟩
  | error cause n =>
    rw [ran] at grows
    refine ⟨List.suffix_refl _, grows, fun _ complete => ?_⟩
    cases cause with
    | noReceiver => exact absurd rfl (complete paren.line)
    | readFailed | notANumeral => rfl
    | indexOutOfRange | indexNotNatural | sizeNotNatural | sizeTooLarge => rfl

end Steps

/-! ### Expressions -/

/-- Watched calls clear the traps of calls. -/
abbrev CallClears (S : SuperSet) (call : Call) (call' : Invoke) : Prop :=
  Hooks.CallsAgree (Clears S) call call'

section Expressions

variable {S : SuperSet} (trap : Trap) {call : Call} {call' : Invoke}

theorem callWith_clears (h : CallClears S call call') (callee : Callable) (arguments : List Value)
    (paren : Token) :
    Clears S (callWith call callee arguments paren) (Lox.callWith call' callee arguments paren) :=
  Clears.ite (h callee arguments paren) (Clears.lift (fail_follows _ _))

mutual

theorem evaluate_clears (h : CallClears S call call') : (e : Expr) → e.Checked S →
    Clears S (evaluate call e) (Trapped.evaluate trap call' e)
  | .literal _, _ => Clears.pure _
  | .group inner, checked => evaluate_clears h inner checked
  | .unary _ right, checked => (evaluate_clears h right checked.2).bind fun v =>
    orFault_clears trap _ (Trapped.operable_unary checked.1 v)
  | .binary left _ right, checked => (evaluate_clears h left checked.2.1).bind fun v =>
    (evaluate_clears h right checked.2.2).bind fun w =>
      orFault_clears trap _ (Trapped.operable_binary checked.1 v w)
  | .logical left _ right, checked => (evaluate_clears h left checked.1).bind fun _ =>
    Clears.ite (Clears.pure _) (evaluate_clears h right checked.2)
  | .variable id name, _ => lookUp_clears id name
  | .assign id name value, checked => Clears.reach id name.lexeme <|
    (evaluate_clears h value checked).bind fun v =>
    (assignName_clears id name v).bind fun _ => Clears.pure v
  | .call callee paren arguments, checked => (evaluate_clears h callee checked.1).bind fun v => by
    cases v with
    | callable c =>
      exact (evaluateAll_clears h arguments checked.2).bind fun vs => callWith_clears h c vs paren
    | nil | bool | number | string | «instance» => exact Clears.lift (fail_follows _ _)
  | .get object name, checked => (evaluate_clears h object checked).bind fun v => by
    cases v with
    | «instance» c o => exact getProperty_clears c o name
    | nil | bool | number | string | callable => exact Clears.lift (fail_follows _ _)
  | .set object name value, checked => (evaluate_clears h object checked.1).bind fun v => by
    cases v with
    | «instance» c o =>
      exact (evaluate_clears h value checked.2).bind fun v =>
        (Clears.lift (Follows.modify fun m => Gradual.setField m o name.lexeme v)).bind fun _ =>
        Clears.pure v
    | nil | bool | number | string | callable => exact Clears.lift (fail_follows _ _)
  | .this id keyword, _ => lookUp_clears id keyword
  | .super _ _ _, checked => superMethod_clears trap checked

theorem evaluateAll_clears (h : CallClears S call call') : (es : List Expr) → Expr.CheckedAll S es →
    Clears S (evaluateAll call es) (Trapped.evaluateAll trap call' es)
  | [], _ => Clears.pure _
  | e :: es, checked => (evaluate_clears h e checked.1).bind fun _ =>
    (evaluateAll_clears h es checked.2).bind fun _ => Clears.pure _

end

theorem evaluate?_clears (h : CallClears S call call') {o : Option Expr}
    (checked : Expr.CheckedOption S o) :
    Clears S (evaluate? call o) (Trapped.evaluate? trap call' o) := by
  cases o with
  | none => exact Clears.pure _
  | some e => exact evaluate_clears trap h e checked

/-! ### Statements -/

theorem evaluateSuperclass_clears (h : CallClears S call call') (name : Token) {o : Option Expr}
    (checked : Expr.CheckedOption S o) :
    Clears S (evaluateSuperclass call name o) (Trapped.evaluateSuperclass trap call' name o) := by
  cases o with
  | none => exact Clears.pure _
  | some e =>
    exact (evaluate_clears trap h e checked).bind fun _ =>
      (Clears.lift (orFail_follows _ _ _)).map some

theorem methodEnv_clears (methods : List FunctionDecl) (superclass : Option Class) :
    Clears S (methodEnv methods superclass) (Lox.methodEnv superclass) := by
  refine Clears.look fun m => ?_
  cases superclass with
  | none => exact Clears.pure _
  | some c =>
    exact (Clears.openFrame _ _).bind fun inner =>
      (Clears.lift (defineIn_follows _ _ _)).bind fun _ => Clears.pure _

theorem declareClass_clears (h : CallClears S call call') (name : Token) {superclass : Option Expr}
    (checked : Expr.CheckedOption S superclass) (methods : List FunctionDecl) :
    Clears S (declareClass call name superclass methods)
      (Trapped.declareClass trap call' name superclass methods) :=
  (evaluateSuperclass_clears trap h name checked).bind fun parent => by
    refine Clears.of_eq ((Clears.lift (define_follows _ _)).bind fun _ =>
      (methodEnv_clears methods parent).bind fun env =>
      (Clears.lift freshIdentity_follows).bind fun id => Clears.lift (assignClass_follows _ _))
      fun m rooted => ?_
    exact Trapped.declared_cleared trap rooted name parent fun env id =>
      ⟨id, name.lexeme, parent, methodTable env methods⟩

theorem loop_clears {condition : Watch Value} {condition' : Eval Value} {body : Watch Flow}
    {body' : Eval Flow} (test : Clears S condition condition') (lap : Clears S body body')
    (laps : Nat) : Clears S (loop condition body laps) (Lox.loop condition' body' laps) := by
  induction laps with
  | zero => exact Clears.throw _
  | succ laps ih =>
    refine test.bind fun v => Clears.ite (lap.bind fun flow => ?_) (Clears.pure _)
    cases flow with
    | normal => exact ih
    | «break» => exact Clears.pure _
    | «return» v => exact Clears.pure _

mutual

theorem execute_clears (h : CallClears S call call') (laps : Nat) : (s : Stmt) → s.Checked S →
    Clears S (execute call laps s) (Trapped.execute trap call' laps s)
  | .expression e, checked => (evaluate_clears trap h e checked).bind fun _ => Clears.pure _
  | .print e, checked => (evaluate_clears trap h e checked).bind fun _ =>
    (Clears.lift (printLine_follows _)).bind fun _ => Clears.pure _
  | .var _ _, checked => (evaluate?_clears trap h checked).bind fun _ =>
    (Clears.lift (define_follows _ _)).bind fun _ => Clears.pure _
  | .block body, checked => Clears.look fun _ _ _ => Cleared.opened fun _ _ _ inside _ =>
    Cleared.within (executeAll_clears h laps body checked _ inside)
  | .ite condition thenBranch none, checked =>
    (evaluate_clears trap h condition checked.1).bind fun _ =>
    Clears.ite (execute_clears h laps thenBranch checked.2) (Clears.pure _)
  | .ite condition thenBranch (some elseBranch), checked =>
    (evaluate_clears trap h condition checked.1).bind fun _ =>
    Clears.ite (execute_clears h laps thenBranch checked.2.1)
      (execute_clears h laps elseBranch checked.2.2)
  | .while condition body, checked =>
    loop_clears (evaluate_clears trap h condition checked.1)
      (execute_clears h laps body checked.2) laps
  | .break _, _ => Clears.pure _
  | .function d, _ => (Clears.lift (declareFunction_follows d)).bind fun _ => Clears.pure _
  | .return _ _, checked => (evaluate?_clears trap h checked).bind fun _ => Clears.pure _
  | .class name _ methods, checked =>
    (declareClass_clears trap h name checked.1 methods).bind fun _ => Clears.pure _

theorem executeAll_clears (h : CallClears S call call') (laps : Nat) : (ss : List Stmt) →
    Stmt.CheckedAll S ss →
    Clears S (executeAll call laps ss) (Trapped.executeAll trap call' laps ss)
  | [], _ => Clears.pure _
  | s :: ss, checked => (execute_clears h laps s checked.1).bind fun flow => by
    cases flow with
    | normal => exact executeAll_clears h laps ss checked.2
    | «break» => exact Clears.pure _
    | «return» v => exact Clears.pure _

end

end Expressions

/-! ### Calls -/

/-- Whatever the statements are, the log, the frames and the objects only grow. -/
def Lengthens (run : List Stmt → Watch Flow) : Prop :=
  ∀ body w, w.log <:+ (after (run body w)).log ∧ Grows w.machine (after (run body w)).machine

section Calls

variable {S : SuperSet} (trap : Trap) {run : List Stmt → Watch Flow} {run' : List Stmt → Eval Flow}
  (lengthens : Lengthens run)
  (h : ∀ body, Stmt.CheckedAll S body → Clears S (run body) (run' body))

include lengthens h

/-- The log tells that the function was called. -/
theorem body_cleared {d : FunctionDecl} {env : Env} {w : State}
    (opened : .opened (.call d) env ∈ w.log) (rooted : Rooted w.machine) :
    Cleared S w (run d.body w) (run' d.body w.machine) := by
  by_cases checked : d.Checked S
  · exact h d.body checked.body w rooted
  · obtain ⟨grown, grows⟩ := lengthens d.body w
    exact ⟨grown, grows, fun fit _ => absurd (fit.called d env (grown.subset opened)) checked⟩

theorem callFunction_clears (closure : Closure) (arguments : List Value) :
    Clears S (callFunction run closure arguments) (Lox.callFunction run' closure arguments) := by
  refine fun w rooted => Cleared.opened fun env w₁ opened inside begun => ?_
  refine (Clears.lift (bindParameters_follows env _ arguments) w₁ (rooted.later begun)).bind
    fun _ w₂ _ grown grows => ?_
  have inside₂ : Rooted { w₂.machine with env } := inside.later ⟨rfl, grows.store⟩
  refine Cleared.bind (Cleared.within ?_) fun flow w₃ _ _ ended => ?_
  · exact body_cleared lengthens h (w := { w₂ with machine := { w₂.machine with env } })
      (grown.subset opened) inside₂
  · exact Clears.lift (result_follows closure flow) w₃
      (rooted.later (begun.trans (grows.trans ended)))

theorem callMethod_clears (c : Class) (object : ObjectId) (method : Method)
    (arguments : List Value) (paren : Token) :
    Clears S (callMethod run c object method arguments paren)
      (Trapped.callMethod trap run' c object method arguments paren) :=
  (bindMethod_clears c object method).bind fun bound => by
    cases bound with
    | function id closure => exact callFunction_clears lengthens h closure arguments
    | native id op receiver => exact callNative_clears trap op receiver arguments paren
    | «class» c => exact Clears.pure _

theorem instantiate_clears (c : Class) (arguments : List Value) (paren : Token) :
    Clears S (instantiate run c arguments paren)
      ((Trapped.hooks trap).instantiate run' c arguments paren) := by
  have allocates : Follows Grows (modifyGet (·.withStore (·.allocate)) : Eval ObjectId) :=
    fun m => Gradual.allocate m
  refine (Clears.lift allocates).bind fun object => ?_
  cases c.findMethod? initializerName with
  | none => exact Clears.pure _
  | some method =>
    exact (callMethod_clears trap lengthens h c object method arguments paren).bind fun _ =>
      Clears.pure _

theorem apply_clears : CallClears S (apply run) (Trapped.apply trap run') := by
  intro callee arguments paren
  cases callee with
  | function id closure => exact callFunction_clears lengthens h closure arguments
  | native id op receiver => exact callNative_clears trap op receiver arguments paren
  | «class» c => exact instantiate_clears trap lengthens h c arguments paren

end Calls

theorem final_forget {α : Type} (r : Result Halt State α) :
    final (forget r) = (after r).machine := by
  cases r <;> rfl

theorem executeAll_lengthens (fuel laps : Nat) : Lengthens (executeAll (invoke fuel) laps) := by
  have lands := (hooks_land 0).executeAll (invoke_lands fuel 0) laps
  refine fun body w => ⟨(lands body ⟨0, 0⟩ w).grows, ?_⟩
  rw [← final_forget, executeAll_erases (invoke_erases fuel) laps body w]
  exact executeAll_follows (invoke_follows fuel) laps body w.machine

variable {S : SuperSet} (trap : Trap)

theorem invoke_clears (fuel : Nat) : CallClears S (invoke fuel) (Trapped.invoke trap fuel) := by
  induction fuel with
  | zero => exact fun _ _ _ => Clears.throw _
  | succ fuel ih =>
    exact apply_clears trap (executeAll_lengthens fuel fuel)
      fun body checked => executeAll_clears trap ih fuel body checked

/-! ### Programs -/

theorem runAll_clears (fuel : Nat) {program : List Stmt} (checked : Stmt.CheckedAll S program) :
    Clears S (runAll fuel program) (Trapped.runAll trap fuel program) := by
  induction program with
  | nil => exact Clears.pure _
  | cons s ss ih =>
    exact (execute_clears trap (invoke_clears trap fuel) fuel s checked.1).bind fun _ =>
      ih checked.2

end Lox.Watched
