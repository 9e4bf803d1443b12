import Lox.Proofs.Run.Sound

/-!
# Where closures come from

Every closure that a run meets belongs to a function of the programs that were accepted, and every
scope of `super` holds the class that the superclass of one class statement was when the statement
ran (`execute_upholds`, `invoke_upholds`).
-/

namespace Lox.Watched

open EStateM (Result)

section Runs

variable {A : List (List Stmt)}

/-! ### Names and methods -/

theorem put_upholds (frame : FrameId) {name : String} (other : name ≠ "super") {v : Value}
    (sane : Sane A v) :
    Upholds A (lift (modify (·.mapStore (·.put frame name v)))) fun _ => True :=
  fun _ sound => .ok (sound.put frame other sane) trivial

theorem defineIn_upholds (env : Env) {name : String} (other : name ≠ "super") {v : Value}
    (sane : Sane A v) : Upholds A (lift (defineIn env name v)) fun _ => True := by
  cases env with
  | nil => exact fun w sound => .ok (sound.moved { sound.shared with } sound.frames (.of_frames rfl)) trivial
  | cons frame outer => exact put_upholds frame other sane

theorem define_upholds {name : String} (other : name ≠ "super") {v : Value} (sane : Sane A v) :
    Upholds A (lift (define name v)) fun _ => True :=
  Upholds.lift_get fun _ _ => defineIn_upholds _ other sane

theorem Sound.getAt? {w : State} (h : Sound A w) {env : Env} {distance : Nat} {name : String}
    {v : Value} (found : w.machine.store.getAt? env distance name = some v) : Sane A v :=
  rel_self (h.frames.getAt? env distance name) found

theorem Sound.valueAt? {w : State} (h : Sound A w) {id : NodeId} {name : String} {v : Value}
    (found : w.machine.valueAt? id name = some v) : Sane A v := by
  unfold Machine.valueAt? at found
  split at found
  · exact h.getAt? found
  · exact rel_self (h.frames.get? globalEnv name) found

theorem lookUp_upholds (id : NodeId) (name : Token) : Upholds A (lookUp id name) (Sane A) :=
  Upholds.reach id name.lexeme <| Upholds.lift_get fun _ sound =>
    Upholds.orFail _ _ fun _ found => sound.valueAt? found

theorem assignName_upholds (id : NodeId) {name : Token} (declarable : name.Declarable) {v : Value}
    (sane : Sane A v) : Upholds A (assignName id name v) fun _ => True := by
  refine Upholds.reach id name.lexeme (Upholds.lift_get fun w _ => ?_)
  cases w.machine.ownerOf? id name.lexeme with
  | none => exact Upholds.fail _ _
  | some frame => exact put_upholds frame declarable.2 sane

theorem freshIdentity_upholds : Upholds A (lift freshIdentity) fun _ => True :=
  fun w sound => (Upholds.lift freshIdentity_likewise w sound).bind (f := Pure.pure)
    fun _ _ sound _ => .ok sound trivial

theorem bindMethod_upholds {c : Class} (sane : LikeClass (ownership A) c c) (object : ObjectId)
    {method : Method} (owned : LikeMethod (ownership A) method method) :
    Upholds A (bindMethod c object method) fun bound => LikeCallable (ownership A) bound bound := by
  cases owned with
  | declared same =>
    refine (Upholds.openFrame (.this _) _ nofun nofun).bind fun env _ => ?_
    refine (defineIn_upholds env (by decide) (.instance sane object)).bind fun _ _ => ?_
    exact freshIdentity_upholds.bind fun id _ => Upholds.pure (.function id ⟨rfl, same.2⟩)
  | native op =>
    exact freshIdentity_upholds.bind fun id _ => Upholds.pure (.native id op (some object))

theorem getProperty_upholds {c : Class} (sane : LikeClass (ownership A) c c) (object : ObjectId)
    (name : Token) : Upholds A (getProperty c object name) (Sane A) := by
  refine Upholds.look fun w sound => ?_
  cases found : w.machine.store.field? object name.lexeme with
  | some v => exact Upholds.pure (rel_self (sound.shared.field? object name.lexeme) found)
  | none =>
    refine (Upholds.orFail _ _ fun _ found => rel_self (sane.findMethod? name.lexeme) found).bind
      fun method owned => ?_
    exact (bindMethod_upholds sane object owned).bind fun _ bound => Upholds.pure (.callable bound)

theorem superMethod_upholds (id : NodeId) (keyword method : Token) :
    Upholds A (superMethod id keyword method) (Sane A) := by
  refine Upholds.reach id keyword.lexeme (Upholds.look fun w sound => ?_)
  refine (Upholds.orFail (R := fun _ => True) _ _ fun _ _ => trivial).bind fun distance _ => ?_
  refine (Upholds.orFail _ _ fun _ found => sound.getAt? found).bind fun v value => ?_
  refine (Upholds.orFail _ _ fun _ found => rel_self value.classOf? found).bind
    fun parent inherits => ?_
  refine (Upholds.orFail (R := fun p => LikeClass (ownership A) p.1 p.1) _ _ fun p found => ?_).bind
    fun p receiver => ?_
  · obtain ⟨v, value, found⟩ := Option.bind_eq_some_iff.1 found
    exact (rel_self (sound.getAt? value).instanceOf? found).1
  refine (Upholds.orFail _ _ fun _ found => rel_self (inherits.findMethod? method.lexeme) found).bind
    fun found owned => ?_
  exact (bindMethod_upholds receiver p.2 owned).bind fun _ bound => Upholds.pure (.callable bound)

/-! ### Expressions -/

/-- Calls of what is sane keep states sound. -/
def CallUpholds (A : List (List Stmt)) (call : Call) : Prop :=
  ∀ {c : Callable} {vs : List Value} (paren : Token), LikeCallable (ownership A) c c →
    (∀ v ∈ vs, Sane A v) → Upholds A (call c vs paren) (Sane A)

theorem callWith_upholds {call : Call} (h : CallUpholds A call) {c : Callable}
    (sane : LikeCallable (ownership A) c c) {vs : List Value} (values : ∀ v ∈ vs, Sane A v)
    (paren : Token) : Upholds A (callWith call c vs paren) (Sane A) :=
  Upholds.ite (h paren sane values) (Upholds.fail _ _)

theorem orFault_upholds (line : Nat) {r : Except RuntimeFault Value}
    (h : LikeResult (ownership A) r r) : Upholds A (lift (orFault line r)) (Sane A) := by
  cases h with
  | ok same => exact fun _ sound => .ok sound same
  | error cause => exact Upholds.fail line cause

theorem setField_upholds (object : ObjectId) (name : String) {v : Value} (sane : Sane A v) :
    Upholds A (lift (modify (·.mapStore (·.setField object name v)))) fun _ => True :=
  Upholds.lift (setField_likewise object name sane)

mutual

theorem evaluate_upholds {call : Call} (h : CallUpholds A call) : (e : Expr) → e.Proper →
    Upholds A (evaluate call e) (Sane A)
  | .literal l, _ => Upholds.pure (likeValue_ofLiteral _ l)
  | .group inner, proper => evaluate_upholds h inner proper
  | .unary operator right, proper => (evaluate_upholds h right proper).bind fun _ value =>
    orFault_upholds operator.line (value.applyUnary operator)
  | .binary left operator right, proper => (evaluate_upholds h left proper.1).bind fun _ first =>
    (evaluate_upholds h right proper.2).bind fun _ second =>
    orFault_upholds operator.line (first.applyBinary second operator)
  | .logical left operator right, proper => (evaluate_upholds h left proper.1).bind fun _ value =>
    Upholds.ite (Upholds.pure value) (evaluate_upholds h right proper.2)
  | .variable id name, _ => lookUp_upholds id name
  | .assign id name value, proper => Upholds.reach id name.lexeme <|
    (evaluate_upholds h value proper.2).bind fun _ sane =>
    (assignName_upholds id proper.1 sane).bind fun _ _ => Upholds.pure sane
  | .call callee paren arguments, proper => (evaluate_upholds h callee proper.1).bind
    fun _ value => by
      cases value with
      | callable same =>
        exact (evaluateAll_upholds h arguments proper.2).bind fun _ values =>
          callWith_upholds h same values paren
      | nil | bool | number | string | «instance» => exact Upholds.fail _ _
  | .get object name, proper => (evaluate_upholds h object proper).bind fun _ value => by
    cases value with
    | «instance» same object => exact getProperty_upholds same object name
    | nil | bool | number | string | callable => exact Upholds.fail _ _
  | .set object name value, proper => (evaluate_upholds h object proper.1).bind fun _ owner => by
    cases owner with
    | «instance» _ object =>
      exact (evaluate_upholds h value proper.2).bind fun _ sane =>
        (setField_upholds object name.lexeme sane).bind fun _ _ => Upholds.pure sane
    | nil | bool | number | string | callable => exact Upholds.fail _ _
  | .this id keyword, _ => lookUp_upholds id keyword
  | .super id keyword method, _ => superMethod_upholds id keyword method

theorem evaluateAll_upholds {call : Call} (h : CallUpholds A call) : (es : List Expr) →
    Expr.ProperAll es → Upholds A (evaluateAll call es) fun vs => ∀ v ∈ vs, Sane A v
  | [], _ => Upholds.pure (List.forall_mem_nil _)
  | e :: es, proper => (evaluate_upholds h e proper.1).bind fun _ value =>
    (evaluateAll_upholds h es proper.2).bind fun _ values =>
    Upholds.pure (List.forall_mem_cons.2 ⟨value, values⟩)

end

theorem evaluate?_upholds {call : Call} (h : CallUpholds A call) {o : Option Expr}
    (proper : Expr.ProperOption o) : Upholds A (evaluate? call o) (Sane A) := by
  cases o with
  | none => exact Upholds.pure .nil
  | some e => exact evaluate_upholds h e proper

/-! ### Statements -/

theorem declareFunction_upholds {d : FunctionDecl} (owned : Owned A d)
    (declarable : d.name.Declarable) : Upholds A (lift (declareFunction d)) fun _ => True := by
  unfold declareFunction
  rw [lift_bind]
  refine freshIdentity_upholds.bind fun id _ => Upholds.lift_get fun w _ => ?_
  exact define_upholds declarable.2 (.callable (.function id ⟨rfl, owned⟩))

/-- Afterwards the look-up of the superclass is the latest event. -/
theorem evaluateSuperclass_upheld (call : Call) (name : Token) (id : NodeId) (superclass : Token)
    {w : State} (sound : Sound A w) :
    Upheld A (fun o w' => ∃ parent, o = some parent ∧ LikeClass (ownership A) parent parent ∧
        w'.log = .reached id superclass.lexeme w.machine :: w.log ∧
        w.machine.valueAt? id superclass.lexeme = some (.callable (.class parent)))
      (evaluateSuperclass call name (some (.variable id superclass)) w) := by
  have looked : Upheld A (fun v w' => Sane A v ∧
      w'.log = .reached id superclass.lexeme w.machine :: w.log ∧
      w.machine.valueAt? id superclass.lexeme = some v) (lookUp id superclass w) := by
    show Upheld A _ (lift (orFail _ _ (w.machine.valueAt? id superclass.lexeme))
      { w with log := .reached id superclass.lexeme w.machine :: w.log })
    cases found : w.machine.valueAt? id superclass.lexeme with
    | none => exact .error (sound.reach _ _)
    | some v => exact .ok (sound.reach _ _) ⟨sound.valueAt? found, rfl, rfl⟩
  unfold evaluateSuperclass Hooks.evaluateSuperclass
  refine looked.bind fun v w' sound ⟨sane, latest, found⟩ => ?_
  rw [← bind_pure_comp]
  cases kind : classOf? v with
  | none => exact .error sound
  | some parent =>
    have same : v = .callable (.class parent) := by
      unfold classOf? at kind
      split at kind
      · rw [Option.some.inj kind]
      · nomatch kind
    subst same
    exact .ok sound ⟨parent, rfl, rel_self sane.classOf? rfl, latest, found⟩

theorem methodTable_sane (env : Env) {methods : List FunctionDecl}
    (owned : ∀ d ∈ methods, Owned A d) :
    LikeMethods (ownership A) (methodTable env methods) (methodTable env methods) := by
  refine List.forall₂_same.2 fun entry mem => ⟨rfl, ?_⟩
  obtain ⟨d, declared, rfl⟩ := List.mem_map.1 (List.mem_reverse.1 mem)
  exact .declared ⟨rfl, owned d declared⟩

theorem assignClass_upholds {name : Token} (declarable : name.Declarable) {c : Class}
    (sane : LikeClass (ownership A) c c) :
    Upholds A (lift (assignClass name c)) fun _ => True := by
  refine Upholds.lift_get fun w _ => ?_
  cases w.machine.store.owner? w.machine.env name.lexeme with
  | none => exact Upholds.fail _ _
  | some frame => exact put_upholds frame declarable.2 (.callable (.class sane))

theorem declareClass_upholds (all : AllProper A) (call : Call) {name : Token}
    {superclass : Option Expr} {methods : List FunctionDecl}
    (known : Known A (.class name superclass methods)) :
    Upholds A (declareClass call name superclass methods) fun _ => True := by
  obtain ⟨declarable, shape, -⟩ := known.proper all
  have owned : ∀ d ∈ methods, Owned A d := fun d mem => ⟨_, known, mem⟩
  cases superclass with
  | none =>
    refine (Upholds.pure (R := fun o => o = none) rfl).bind fun o same => ?_
    subst same
    refine (define_upholds declarable.2 .nil).bind fun _ _ => ?_
    refine (Upholds.look fun w _ => Upholds.pure trivial : Upholds A (methodEnv methods none)
      fun _ => True).bind fun env _ => ?_
    exact freshIdentity_upholds.bind fun id _ =>
      assignClass_upholds declarable (.base (methodTable_sane env owned))
  | some e =>
    obtain ⟨id, parentName, rfl, -⟩ := shape
    intro w sound
    refine (evaluateSuperclass_upheld call name id parentName sound).bind fun o w₁ sound₁ found => ?_
    obtain ⟨parent, rfl, sane, latest, value⟩ := found
    -- The name is bound to nil and the scope of `super` opened with nothing noted in between.
    refine (define_upholds declarable.2 .nil w₁ sound₁).quiet.bind fun _ w₂ sound₂ ⟨_, same⟩ => ?_
    have opened : Upheld A (fun _ _ => True) (methodEnv methods (some parent) w₂) :=
      .ok (sound₂.inherit known (same.trans latest) value sane w₂.machine.env) trivial
    refine opened.bind fun env w₃ sound₃ _ => ?_
    refine (freshIdentity_upholds.bind fun id _ => ?_) w₃ sound₃
    exact assignClass_upholds declarable (.derived sane (methodTable_sane env owned))

theorem loop_upholds {condition : Watch Value} {body : Watch Flow}
    (test : Upholds A condition (Sane A))
    (lap : Upholds A body fun flow => LikeFlow (ownership A) flow flow) (laps : Nat) :
    Upholds A (loop condition body laps) fun flow => LikeFlow (ownership A) flow flow := by
  induction laps with
  | zero => exact Upholds.throw _
  | succ laps ih =>
    refine test.bind fun _ _ => Upholds.ite (lap.bind fun flow ended => ?_) (Upholds.pure .normal)
    cases ended with
    | normal => exact ih
    | «break» => exact Upholds.pure .normal
    | «return» same => exact Upholds.pure (.return same)

mutual

theorem execute_upholds (all : AllProper A) {call : Call} (h : CallUpholds A call)
    (laps : Nat) : (s : Stmt) → Known A s →
    Upholds A (execute call laps s) fun flow => LikeFlow (ownership A) flow flow
  | .expression e, known => (evaluate_upholds h e (known.proper all)).bind fun _ _ =>
    Upholds.pure .normal
  | .print e, known => (evaluate_upholds h e (known.proper all)).bind fun v _ =>
    (Upholds.lift (printLine_likewise v.text)).bind fun _ _ => Upholds.pure .normal
  | .var _ _, known =>
    (evaluate?_upholds h (known.proper all).2).bind fun _ sane =>
    (define_upholds (known.proper all).1.2 sane).bind fun _ _ => Upholds.pure .normal
  | .block body, known => Upholds.look fun _ _ =>
    (Upholds.openFrame (.block body) _ nofun nofun).bind fun _ _ =>
    Upholds.within (executeAll_upholds all h laps body (fun _ inside => known.inner inside))
  | .ite condition thenBranch none, known =>
    (evaluate_upholds h condition (known.proper all).1).bind fun _ _ =>
    Upholds.ite (execute_upholds all h laps thenBranch
      (known.inner List.mem_cons_self)) (Upholds.pure .normal)
  | .ite condition thenBranch (some elseBranch), known =>
    (evaluate_upholds h condition (known.proper all).1).bind fun _ _ =>
    Upholds.ite (execute_upholds all h laps thenBranch
      (known.inner List.mem_cons_self))
      (execute_upholds all h laps elseBranch
        (known.inner (List.mem_cons_of_mem _ List.mem_cons_self)))
  | .while condition body, known =>
    loop_upholds (evaluate_upholds h condition (known.proper all).1)
      (execute_upholds all h laps body (known.inner List.mem_cons_self)) laps
  | .break _, _ => Upholds.pure .break
  | .function _, known =>
    (declareFunction_upholds ⟨_, known, List.mem_cons_self⟩ (known.proper all).1).bind
    fun _ _ => Upholds.pure .normal
  | .return _ _, known => (evaluate?_upholds h (known.proper all)).bind fun _ sane =>
    Upholds.pure (.return sane)
  | .class _ _ _, known => (declareClass_upholds all call known).bind fun _ _ =>
    Upholds.pure .normal

theorem executeAll_upholds (all : AllProper A) {call : Call} (h : CallUpholds A call)
    (laps : Nat) : (ss : List Stmt) → (∀ s ∈ ss, Known A s) →
    Upholds A (executeAll call laps ss) fun flow => LikeFlow (ownership A) flow flow
  | [], _ => Upholds.pure .normal
  | s :: ss, known =>
    (execute_upholds all h laps s (known s List.mem_cons_self)).bind fun _ ended => by
      cases ended with
      | normal =>
        exact executeAll_upholds all h laps ss fun t mem => known t (List.mem_cons_of_mem _ mem)
      | «break» => exact Upholds.pure .break
      | «return» same => exact Upholds.pure (.return same)

end

/-! ### Calls -/

theorem bindParameters_upholds (env : Env) : (ps : List Token) → (vs : List Value) →
    (∀ p ∈ ps, p.Declarable) → (∀ v ∈ vs, Sane A v) →
    Upholds A (lift (bindParameters env ps vs)) fun _ => True
  | [], _, _, _ => fun _ sound => .ok sound trivial
  | _ :: _, [], _, _ => fun _ sound => .ok sound trivial
  | p :: ps, v :: vs, declarable, values => by
    unfold bindParameters
    rw [lift_bind]
    refine (defineIn_upholds env (declarable p List.mem_cons_self).2
      (values v List.mem_cons_self)).bind fun _ _ => ?_
    exact bindParameters_upholds env ps vs (fun q mem => declarable q (List.mem_cons_of_mem _ mem))
      fun u mem => values u (List.mem_cons_of_mem _ mem)

theorem result_upholds (closure : Closure) {flow : Flow}
    (ended : LikeFlow (ownership A) flow flow) :
    Upholds A (lift (result closure flow)) (Sane A) := by
  unfold result
  split
  · refine Upholds.lift_get fun w sound w' sound' => .ok sound' ?_
    cases found : w.machine.store.getAt? closure.env 0 "this" with
    | none => exact .nil
    | some v => exact sound.getAt? found
  · cases ended with
    | «return» same => exact fun _ sound => .ok sound same
    | normal | «break» => exact fun _ sound => .ok sound .nil

theorem callNative_upholds (op : Native) (receiver : Option ObjectId) {vs : List Value}
    (values : ∀ v ∈ vs, Sane A v) (paren : Token) :
    Upholds A (lift (callNative op receiver vs paren)) (Sane A) :=
  Upholds.lift (R := LikeValue (ownership A))
    (callNative_likewise op receiver (List.forall₂_same.2 values) paren)

section Calls

variable {run : List Stmt → Watch Flow} (all : AllProper A)
  (h : ∀ body, (∀ s ∈ body, Known A s) →
    Upholds A (run body) fun flow => LikeFlow (ownership A) flow flow)

include all h

theorem callFunction_upholds {closure : Closure} (owned : Owned A closure.declaration)
    {vs : List Value} (values : ∀ v ∈ vs, Sane A v) :
    Upholds A (callFunction run closure vs) (Sane A) := by
  refine (Upholds.openFrame (.call _) _ (fun d same => ?_) nofun).bind fun env _ => ?_
  · obtain rfl := Binding.Origin.call.inj same
    exact owned
  refine (bindParameters_upholds env _ vs (owned.proper all).params values).bind fun _ _ => ?_
  exact (Upholds.within (h _ (owned.body))).bind fun _ ended => result_upholds closure ended

theorem callMethod_upholds {c : Class} (sane : LikeClass (ownership A) c c) (object : ObjectId)
    {method : Method} (owned : LikeMethod (ownership A) method method) {vs : List Value}
    (values : ∀ v ∈ vs, Sane A v) (paren : Token) :
    Upholds A (callMethod run c object method vs paren) (Sane A) :=
  (bindMethod_upholds sane object owned).bind fun _ bound => by
    cases bound with
    | function id same => exact callFunction_upholds all h same.2 values
    | native id op receiver => exact callNative_upholds op receiver values paren
    | «class» same => exact Upholds.pure .nil

theorem instantiate_upholds {c : Class} (sane : LikeClass (ownership A) c c) {vs : List Value}
    (values : ∀ v ∈ vs, Sane A v) (paren : Token) :
    Upholds A (instantiate run c vs paren) (Sane A) := by
  refine (Upholds.lift allocate_likewise).bind fun object _ => ?_
  cases found : c.findMethod? initializerName with
  | none => exact Upholds.pure (.instance sane object)
  | some method =>
    exact (callMethod_upholds all h sane object (rel_self (sane.findMethod? _) found) values
      paren).bind fun _ _ => Upholds.pure (.instance sane object)

theorem apply_upholds : CallUpholds A (apply run) := by
  intro c vs paren sane values
  cases sane with
  | function id same => exact callFunction_upholds all h same.2 values
  | native id op receiver => exact callNative_upholds op receiver values paren
  | «class» same => exact instantiate_upholds all h same values paren

end Calls

theorem invoke_upholds (all : AllProper A) (fuel : Nat) : CallUpholds A (invoke fuel) := by
  induction fuel with
  | zero => exact fun _ _ _ => Upholds.throw _
  | succ fuel ih => exact apply_upholds all fun body => executeAll_upholds all ih fuel body

theorem runAll_upholds (all : AllProper A) (fuel : Nat) {ss : List Stmt}
    (known : ∀ s ∈ ss, Known A s) : Upholds A (runAll fuel ss) fun _ => True := by
  induction ss with
  | nil => exact Upholds.pure trivial
  | cons s ss ih =>
    refine (execute_upholds all (invoke_upholds all fuel) fuel s
      (known s List.mem_cons_self)).bind fun _ _ => ?_
    exact ih fun t mem => known t (List.mem_cons_of_mem _ mem)

end Runs

end Lox.Watched
