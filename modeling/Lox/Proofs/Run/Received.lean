import Lox.Proofs.Run.Receivers

/-!
# Keeping receivers

What proper programs run on a machine leaves what its scopes bind to `this` as it is, and makes
functions and classes in which initializers are marked by their names (`runAll_received`).
-/

namespace Lox

open EStateM (Result)
open Trace (silent)

namespace Receivers

/-- The moment was in a former world. -/
def Sees (R : Receivers) (k : Moment) : Prop :=
  ∃ P : Receivers, P.Later R ∧ P.Fits k.machine ∧ P.Involves k.event

end Receivers

def receivers : Growth where
  World := Receivers
  Later := Receivers.Later
  Fits := Receivers.Fits
  Sees := Receivers.Sees
  refl := Receivers.Later.refl
  trans := Receivers.Later.trans
  laterSees later sees := by
    obtain ⟨P, before, fits, involves⟩ := sees
    exact ⟨P, before.trans later, fits, involves⟩

/-- What proper programs do. -/
def received : Judgment where
  Strict := True
  World := Receivers
  Later := Receivers.Later
  GoodEnv := Receivers.Plain
  GoodFunction := Receivers.Function
  GoodNative R _ receiver := ∀ o, receiver = some o → o < R.objects
  GoodMethod _ := Method.Named
  GoodClass _ := Class.Named
  GoodInstance R c o := c.Named ∧ o < R.objects
  Does := receivers.Does

namespace Received

variable {R : Receivers}

theorem good_iff {v : Value} : received.Good R v ↔ R.Holds v := by
  cases v with
  | callable c => cases c <;> exact Iff.rfl
  | nil | bool | number | string | «instance» => exact Iff.rfl

theorem allGood_iff {vs : List Value} : received.AllGood R vs ↔ ∀ v ∈ vs, R.Holds v :=
  forall₂_congr fun _ _ => good_iff

/-! ### Scopes -/

theorem childEnv (env : Env) : receivers.Does R (Lox.childEnv env) silent Receivers.Plain := by
  intro m fits
  refine ⟨_, Receivers.later_addScope none, fits.child env, fun inner n same => ?_,
    List.forall_mem_nil _⟩
  cases same
  exact ⟨_, env, rfl, fits.scopes ▸ Receivers.addScope_last none⟩

theorem defineIn {v : Value} (env : Env) (name : String) (other : name ≠ "this") (own : R.Holds v) :
    receivers.Does R (Lox.defineIn env name v) silent received.AnyValue :=
  Growth.modify trivial fun _ fits => fits.define own env other

theorem define {v : Value} {name : String} (other : name ≠ "this") (own : R.Holds v) :
    receivers.Does R (Lox.define name v) silent received.AnyValue :=
  Growth.get fun m _ => defineIn m.env name other own

theorem put {v : Value} (frame : FrameId) {name : String} (other : name ≠ "this") (own : R.Holds v) :
    receivers.Does R (modify (·.mapStore (·.put frame name v))) silent received.AnyValue :=
  Growth.modify trivial fun _ fits => fits.put own frame other

theorem methodEnv {superclass : Option Class} (named : ∀ p, superclass = some p → p.Named) :
    receivers.Does R (Lox.methodEnv superclass) silent Receivers.Plain := by
  refine Growth.get fun m fits => ?_
  cases superclass with
  | none => exact Growth.pure fun S later => later.plain fits.env
  | some p =>
    refine Growth.andThen (childEnv m.env) fun S inner later plain => ?_
    refine Growth.andThen (defineIn inner "super" (v := .callable (.class p)) (by decide)
      (named p rfl)) fun T _ more _ => ?_
    exact Growth.pure fun U last => last.plain (more.plain plain)

/-! ### Names -/

theorem lookUp (id : NodeId) (name : Token) :
    receivers.Does R (Lox.lookUp id name) silent received.Good :=
  Growth.get fun _ fits => Growth.orFail _ _ fun _ found =>
    good_iff.2 (Machine.valueAt?_all fits.store found)

theorem assignName {v : Value} (id : NodeId) {name : Token} (declarable : name.Declarable)
    (own : R.Holds v) : receivers.Does R (Lox.assignName id name v) silent received.AnyValue := by
  refine Growth.get fun m _ => ?_
  cases m.ownerOf? id name.lexeme with
  | none => exact Growth.throw
  | some frame => exact put frame declarable.1 own

theorem assignClass {c : Class} {name : Token} (declarable : name.Declarable) (named : c.Named) :
    receivers.Does R (Lox.assignClass name c) silent received.AnyValue := by
  refine Growth.get fun m _ => ?_
  cases m.store.owner? m.env name.lexeme with
  | none => exact Growth.throw
  | some frame => exact put frame declarable.1 (v := .callable (.class c)) named

theorem freshIdentity : receivers.Does R Lox.freshIdentity silent received.AnyValue :=
  Growth.stay fun _ fits => ⟨fits.of_same rfl rfl, fun _ _ _ => trivial⟩

/-! ### Functions, methods and classes -/

/-- A function that a statement declares is not an initializer, whatever its name is. -/
theorem declareFunction {d : FunctionDecl} (declarable : d.name.Declarable) (proper : d.Proper) :
    receivers.Does R (Lox.declareFunction d) silent received.AnyValue := by
  refine Growth.andThen freshIdentity fun S id _ _ => Growth.get fun m fits => ?_
  obtain ⟨f, outer, same, none⟩ := fits.env
  exact define declarable.1 (v := .callable (.function id ⟨d, m.env, false⟩))
    ⟨proper, f, outer, _, same, none, rfl⟩

theorem makeClass {superclass : Option Class} {env : Env} {name : Token}
    {methods : List FunctionDecl} (declarable : name.Declarable)
    (proper : FunctionDecl.ProperAll methods) (named : ∀ p, superclass = some p → p.Named) :
    receivers.Does R (Lox.freshIdentity >>= fun id => Lox.assignClass name
      ⟨id, name.lexeme, superclass, methodTable env methods⟩) silent received.AnyValue :=
  Growth.andThen freshIdentity fun _ id _ _ =>
    assignClass declarable (Class.Named.make named id name.lexeme env proper)

/-- A method that is taken of an instance is an initializer if it has the name of initializers. -/
theorem bindMethod {c : Class} {o : ObjectId} {method : Method} (own : c.Named ∧ o < R.objects)
    (named : method.Named) :
    receivers.Does R (Lox.bindMethod c o method) silent received.GoodCallable := by
  cases method with
  | declared closure =>
    intro m fits
    refine ⟨_, Receivers.later_addScope (some (c, o)), fits.receive closure.env own,
      fun bound n same => ?_, List.forall_mem_nil _⟩
    cases same
    exact ⟨named.1, _, _, some (c, o), rfl, fits.scopes ▸ Receivers.addScope_last _, named.2⟩
  | native op =>
    refine Growth.andThen freshIdentity fun S id later _ => Growth.pure fun T more p is => ?_
    cases is
    exact Nat.lt_of_lt_of_le own.2 (later.trans more).objects

theorem takeMethod {k c : Class} {o : ObjectId} (above : k.Named) (own : c.Named ∧ o < R.objects)
    (name : Token) : receivers.Does R (Lox.takeMethod k c o name) silent received.Good := by
  refine Growth.andThen (Q := fun _ => Method.Named)
    (Growth.orFail _ _ fun _ found => (above.found found).method) fun S method later named => ?_
  refine Growth.andThen (bindMethod ⟨own.1, Nat.lt_of_lt_of_le own.2 later.objects⟩ named)
    fun _ bound _ good => ?_
  exact Growth.pure fun T more =>
    good_iff.2 (more.holds (good_iff (v := .callable bound).1 good))

theorem getProperty {c : Class} {o : ObjectId} (own : c.Named ∧ o < R.objects) (name : Token) :
    receivers.Does R (Lox.getProperty c o name) silent received.Good := by
  refine Growth.get fun m fits => ?_
  cases held : m.store.field? o name.lexeme with
  | some v => exact Growth.pure fun S later => good_iff.2 (later.holds (fits.store.fields held))
  | none => exact takeMethod own.1 own name

/-- What is found under `super` is a class, and under `this` an instance. -/
theorem superMethod (id : NodeId) (keyword method : Token) :
    receivers.Does R (Lox.superMethod id keyword method) silent received.Good := by
  refine Growth.get fun m fits => ?_
  refine Growth.andThen (Q := fun _ _ => True) (Growth.orFail _ _ fun _ _ => trivial)
    fun S distance later _ => ?_
  refine Growth.andThen (Q := fun _ => (R.Holds ·))
    (Growth.orFail _ _ fun v found => fits.store.getAt? found) fun T v more own => ?_
  refine Growth.andThen (Q := fun _ => Class.Named) (Growth.orFail _ _ fun c is => ?_)
    fun U superclass most above => ?_
  · cases v with
    | callable k =>
      cases k with
      | «class» k =>
        cases is
        exact own
      | function | native => cases is
    | nil | bool | number | string | «instance» => cases is
  refine Growth.andThen (Q := fun _ (p : Class × ObjectId) => R.Holds (receiverValue p))
    (Growth.orFail _ _ fun p is => ?_) fun V p last own => ?_
  · obtain ⟨v, bound, is⟩ := Option.bind_eq_some_iff.1 is
    have own := fits.store.getAt? bound
    cases v with
    | «instance» =>
      cases is
      exact own
    | nil | bool | number | string | callable => cases is
  have all := ((later.trans more).trans most).trans last
  exact takeMethod above ⟨own.1, Nat.lt_of_lt_of_le own.2 all.objects⟩ method

theorem allocate {c : Class} (named : c.Named) :
    receivers.Does R (modifyGet (·.withStore (·.allocate))) silent
      fun S o => received.GoodInstance S c o := by
  intro m fits
  refine ⟨_, Receivers.later_addObject, fits.allocate, fun o n same => ?_, List.forall_mem_nil _⟩
  cases same
  exact ⟨named, Nat.lt_of_lt_of_eq (Nat.lt_succ_self _) (congrArg (· + 1) fits.objects.symm)⟩

/-! ### Calls -/

theorem result {closure : Closure} {flow : Flow} (good : received.GoodFlow R flow) :
    receivers.Does R (Lox.result closure flow) silent received.Good := by
  unfold Lox.result
  split
  · refine Growth.get fun m fits => Growth.pure fun S later => good_iff.2 (later.holds ?_)
    cases bound : m.store.getAt? closure.env 0 "this" with
    | none => trivial
    | some v => exact fits.store.getAt? bound
  · cases flow with
    | «return» v =>
      exact Growth.pure fun S later => good_iff.2 (later.holds (good_iff.1 good))
    | normal | «break» => exact Growth.pure fun _ _ => trivial

theorem callNative {op : Native} {receiver : Option ObjectId} {arguments : List Value} (paren : Token)
    (all : ∀ v ∈ arguments, R.Holds v) :
    receivers.Does R (Lox.callNative op receiver arguments paren) silent received.Good := by
  refine Growth.stay fun m fits => ?_
  have served := Native.run_all Receivers.holds_plain fits.store op receiver all
  have objects := Native.run_objects op receiver arguments m
  have fits : R.Fits (final (op.run receiver arguments m)) :=
    ⟨served.env ▸ fits.env, served.store, fits.scopes.trans (congrArg Array.size served.frames.symm),
      fits.objects.trans objects.symm,
      fun known => (getHere?_frames served.frames _ "this").trans (fits.bound known)⟩
  unfold Lox.callNative
  cases ran : op.run receiver arguments m with
  | ok v n =>
    rw [ran] at fits
    refine ⟨fits, fun w _ same => ?_⟩
    cases same
    exact good_iff.2 (served.value v n ran)
  | error cause n =>
    rw [ran] at fits
    exact ⟨fits, ends_error⟩

theorem mark {α : Type} {x : Eval α} {t : Trace} {Q : Receivers → α → Prop} {event : Act}
    (own : R.Involves event) (h : receivers.Does R x t Q) :
    receivers.Does R x (Trace.mark event t) Q :=
  Growth.mark (fun _ fits => ⟨R, .refl R, fits, own⟩) h

theorem printLine (text : String) :
    receivers.Does R (Lox.printLine text) (Trace.mark (.output text) silent) received.AnyValue := by
  refine mark trivial (Growth.stay fun m fits => ?_)
  rw [printLine_run]
  split <;> exact ⟨fits.of_same rfl rfl, fun _ _ _ => trivial⟩

instance : Discipline received where
  refl := Receivers.Later.refl
  trans := Receivers.Later.trans
  proper _ good := good.1
  laterFunction later := later.function
  laterNative later := later.native
  laterEnv later := later.plain
  laterClass _ named := named
  laterInstance later own := ⟨own.1, Nat.lt_of_lt_of_le own.2 later.objects⟩
  found named found := (named.found found).method
  pure := Growth.pure (K := receivers)
  throw := Growth.throw (K := receivers)
  bind := Growth.bind (K := receivers)
  mark {_ R _ _ _ event} good h := by
    refine mark ?_ h
    cases event with
    | output | native => exact good.elim
    | statement | expression => exact good trivial
    | function closure arguments => exact ⟨good.1, allGood_iff.1 good.2⟩
    | construct c arguments => exact ⟨good.1, allGood_iff.1 good.2⟩
  within plain h := Growth.within (fun _ fits => fits.inEnv plain)
    (fun _ _ _ later before after => after.inEnv (later.plain before.env)) h
  lookUp _ := lookUp
  assignName id name declarable own := assignName id (declarable trivial) (good_iff.1 own)
  getProperty name own := getProperty own name
  setField o name own := Growth.modify trivial fun _ fits => fits.setField (good_iff.1 own) o name
  superMethod _ := superMethod
  define name declarable own := define (declarable trivial).1 (good_iff.1 own)
  declareFunction _ d proper := declareFunction (proper trivial).1 (proper trivial).2
  blockEnv _ := Growth.get fun m _ => childEnv m.env
  methodEnv := methodEnv
  makeClass name methods proper _ named :=
    makeClass (proper trivial).1 (proper trivial).2 named
  callEnv {_ closure} _ := childEnv closure.env
  defineIn name declarable _ own := defineIn _ name.lexeme (declarable trivial).1 (good_iff.1 own)
  result _ := result
  bindMethod own named := bindMethod own named
  allocate := allocate
  callNative paren own all := mark ⟨own, allGood_iff.1 all⟩ (callNative paren (allGood_iff.1 all))
  printLine _ := printLine

end Received

/-- A proper program leaves what scopes bind to `this` as it is. -/
theorem runAll_received (fuel : Nat) {program : List Stmt} (proper : Stmt.ProperAll program)
    {R : Receivers} {m : Machine} (fits : R.Fits m) :
    ∃ S, R.Later S ∧ S.Fits (final (runAll fuel program m)) ∧
      ∀ k ∈ Trace.runAll fuel program m, S.Sees k := by
  obtain ⟨S, later, kept⟩ :=
    Discipline.runAll_does (J := received) fuel (w := R) program (fun _ => proper) m fits
  exact ⟨S, later, kept.fits, kept.sees⟩

end Lox
