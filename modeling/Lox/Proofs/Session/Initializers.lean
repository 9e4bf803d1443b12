import Lox.Proofs.Run.Initializers
import Lox.Proofs.Run.Steady
import Lox.Proofs.Scoping.Session
import Lox.Proofs.Session.Linked

/-!
# Initializers in a session

In every session a method with the name of initializers yields the instance it was taken of, whichever
way it was come by and however its body ends, and a class yields a new instance
(`session_initializes`).
-/

namespace Lox

namespace Receivers

/-! ### Moments -/

/-- What holds at a moment of a session. -/
structure Attends (R : Receivers) (k : Moment) : Prop where
  /-- What a scope binds to `this` it binds for the whole session. -/
  lasting : ∀ f < k.machine.store.frames.size,
    k.machine.store.getHere? f "this" = (R.scopes[f]?.join).map receiverValue
  /-- Functions that are declared by statements have no receiver. -/
  declared : ∀ d, k.event = .statement (.function d) →
    Closure.receiver? k.machine.store ⟨d, k.machine.env, false⟩ = none
  /-- A function with a receiver and the name of initializers yields the receiver. -/
  initializer : ∀ closure arguments, k.event = .function closure arguments →
    closure.hasInitializerName → ∀ v, closure.receiver? k.machine.store = some v →
      (∃ c o, v = .instance c o) ∧ ∀ fuel laps w n,
        callFunction (executeAll (invoke fuel) laps) closure arguments k.machine = .ok w n → w = v
  /-- All other functions yield what their bodies return. -/
  own : ∀ closure arguments, k.event = .function closure arguments →
    ¬ closure.hasInitializerName ∨ closure.receiver? k.machine.store = none →
      ∀ run, callFunction run closure arguments = callBody run closure arguments
  /-- Whatever expression a method comes from that is called as an initializer. -/
  called : ∀ callee paren arguments, k.event = .expression (.call callee paren arguments) →
    ∀ fuel id closure m,
      evaluate (invoke fuel) callee k.machine = .ok (.callable (.function id closure)) m →
      closure.hasInitializerName → ∀ v, closure.receiver? m.store = some v → ∀ w n,
        evaluate (invoke fuel) (.call callee paren arguments) k.machine = .ok w n → w = v
  /-- A class yields an instance whose object no value referred to before. -/
  constructed : ∀ c arguments, k.event = .construct c arguments →
    (k.machine.store.All fun v => ∀ d, v ≠ .instance d k.machine.store.objects.size) ∧
    (∀ v ∈ arguments, ∀ d, v ≠ .instance d k.machine.store.objects.size) ∧
    ∀ fuel laps paren v n,
      instantiate (executeAll (invoke fuel) laps) c arguments paren k.machine = .ok v n →
        Constructed k.machine c arguments (executeAll (invoke fuel) laps) v n

theorem Fits.lasting {P R : Receivers} {m : Machine} (fits : P.Fits m) (later : P.Later R) :
    ∀ f < m.store.frames.size,
      m.store.getHere? f "this" = (R.scopes[f]?.join).map receiverValue := by
  intro f inside
  have inside : f < P.scopes.length := fits.scopes ▸ inside
  have known := List.getElem?_eq_getElem inside
  rw [fits.bound known, getElem?_later later.scopes known]
  rfl

theorem Sees.attends {R : Receivers} {k : Moment} (h : R.Sees k) : R.Attends k := by
  obtain ⟨P, later, fits, involves⟩ := h
  obtain ⟨event, m⟩ := k
  refine ⟨fits.lasting later, ?_, ?_, ?_, ?_, ?_⟩
  · rintro d rfl
    obtain ⟨f, outer, env, plain⟩ := fits.env
    show m.store.getAt? m.env 0 "this" = none
    unfold Store.getAt?
    rw [env]
    exact fits.bound plain
  · rintro closure arguments rfl named v bound
    obtain ⟨is, -⟩ := involves.1.initializer fits named bound
    exact ⟨is, fun _ _ _ _ ran => initializer_yields fits involves.1 named bound involves.2 ran⟩
  · rintro closure arguments rfl other run
    exact callFunction_own (involves.1.own fits other) run arguments
  · rintro callee paren arguments rfl fuel id closure k evaluated named v bound w n ran
    exact call_yields fits involves evaluated named bound ran
  · rintro c arguments rfl
    refine ⟨fits.fresh, fun v mem d same => ?_, fun _ _ _ _ _ ran =>
      instantiate_yields fits involves.1 involves.2 ran⟩
    subst same
    exact Nat.ne_of_lt (involves.2 _ mem).2 fits.objects.symm

/-! ### Sessions -/

/-- There are no other receivers in all texts of a session. -/
def Accompanies (R : Receivers) (m : Machine) : List (Nat × String) → Prop
  | [] => True
  | (fuel, source) :: texts =>
    (∀ k ∈ m.trace fuel source, R.Attends k) ∧ R.Accompanies (m.run fuel source).2 texts

/-- The globals, and the object of the input. -/
def start : Receivers := ⟨[none], 1⟩

theorem inputClass_named : Native.inputClass.Named :=
  List.forall_mem_singleton.2 (by dsimp only [Native.inputClass]; simp [NamedEntry])

theorem listClass_named : Native.listClass.Named :=
  List.forall_mem_singleton.2 (by dsimp only [Native.listClass]; simp [NamedEntry])

theorem fits_start (input : List UInt8) (sink : Sink) (clock : Nat → Float) :
    start.Fits (.start input sink clock) where
  env := ⟨globalFrame, [], rfl, rfl⟩
  store := by
    have bare : (Store.empty.child []).2.allocate.2.All start.Holds :=
      ((Graph.all_empty _).child []).allocate
    have clock := bare.put (v := .callable (.native 0 .clock none)) nofun globalFrame "clock"
    have input := clock.put (v := .instance Native.inputClass 0) ⟨inputClass_named, Nat.one_pos⟩
      globalFrame "input"
    exact input.put (v := .callable (.class Native.listClass)) listClass_named globalFrame "List"
  scopes := by
    show [none].length = Machine.startStore.frames.size
    simp [Machine.startStore, Machine.supplied, Store.put, Store.allocate, Store.child, Store.empty]
  objects := by
    show 1 = Machine.startStore.objects.size
    simp [Machine.startStore, Machine.supplied, Store.put, Store.allocate, Store.child, Store.empty]
  bound {f receiver} known := by
    obtain rfl : receiver = none := List.mem_singleton.1 (List.mem_of_getElem? known)
    have bare : (Store.empty.child []).2.allocate.2.getHere? f "this" = none :=
      (getHere?_frames rfl f "this").trans ((Store.empty.getHere?_child [] f "this").trans
        (by simp [Store.getHere?, Store.empty]))
    have clock := (getHere?_put_other _ globalFrame (by decide : "clock" ≠ "this")
      (.callable (.native 0 .clock none)) f).trans bare
    have input := (getHere?_put_other _ globalFrame (by decide : "input" ≠ "this")
      (.instance Native.inputClass 0) f).trans clock
    exact (getHere?_put_other _ globalFrame (by decide : "List" ≠ "this")
      (.callable (.class Native.listClass)) f).trans input

theorem run_received {R : Receivers} {m : Machine} (fits : R.Fits m) (fuel : Nat) (source : String) :
    ∃ S, R.Later S ∧ S.Fits (m.run fuel source).2 ∧ ∀ k ∈ m.trace fuel source, S.Sees k := by
  cases read : (compile source m.nextNode).result with
  | error faults =>
    obtain ⟨run, trace⟩ := run_unread read fuel
    rw [run, trace]
    exact ⟨R, .refl R, fits.of_same rfl rfl, List.forall_mem_nil _⟩
  | ok program =>
    have loaded : R.Fits (m.loaded source program) := fits.of_same rfl rfl
    by_cases clean : (Binding.program program).faults = []
    · obtain ⟨run, trace⟩ := run_loaded read clean fuel
      rw [run, trace, ofResult_thenFlush]
      exact runAll_received fuel (Scoping.compile_good read).2 loaded
    · obtain ⟨run, trace⟩ := run_misbound read clean fuel
      rw [run, trace]
      exact ⟨R, .refl R, loaded, List.forall_mem_nil _⟩

theorem texts_received {R : Receivers} {m : Machine} (fits : R.Fits m)
    (texts : List (Nat × String)) : ∃ S, R.Later S ∧ S.Accompanies m texts := by
  induction texts generalizing R m with
  | nil => exact ⟨R, .refl R, trivial⟩
  | cons text texts ih =>
    obtain ⟨fuel, source⟩ := text
    obtain ⟨S, later, after, moments⟩ := run_received fits fuel source
    obtain ⟨T, more, accompanies⟩ := ih after
    exact ⟨T, later.trans more,
      fun k mem => Sees.attends (receivers.laterSees more (moments k mem)), accompanies⟩

end Receivers

/-- A method has as its receiver the instance it was taken of, for the whole session. If it has the
name of initializers, a call of it yields that instance, and a class yields a new instance. -/
theorem session_initializes :
    (∀ call object (name : Token) m n c o closure, evaluate call object m = .ok (.instance c o) n →
      n.store.field? o name.lexeme = none →
      c.findMethod? name.lexeme = some (.declared closure) →
        Takes closure (.instance c o) (evaluate call (.get object name) m)) ∧
    (∀ call id (keyword method : Token) (m : Machine) d (k c : Class) o closure, m.distances[id]? = some d →
      m.store.getAt? m.env d keyword.lexeme = some (.callable (.class k)) →
      m.store.getAt? m.env (d - 1) "this" = some (.instance c o) →
      k.findMethod? method.lexeme = some (.declared closure) →
        Takes closure (.instance c o) (evaluate call (.super id keyword method) m)) ∧
    ∀ input sink clock texts,
      ∃ R : Receivers, R.Accompanies (Machine.start input sink clock) texts := by
  refine ⟨fun _ _ _ _ _ _ _ _ => get_takes, fun _ _ _ _ _ _ _ _ _ _ => super_takes,
    fun input sink clock texts => ?_⟩
  obtain ⟨R, -, accompanies⟩ := Receivers.texts_received (Receivers.fits_start input sink clock) texts
  exact ⟨R, accompanies⟩

/-! ### A session -/

/-- `class A { init() { while (true) { return; } } } class B < A { init() { super.init(); } }
B().init();` -/
def initializingText : String :=
  "class A \x7b init() \x7b while (true) \x7b return; \x7d \x7d \x7d " ++
    "class B < A \x7b init() \x7b super.init(); \x7d \x7d B().init();"

def initializing : List Moment :=
  (Machine.start [] .unlimited fun _ => 0).trace 9 initializingText

/-- A declared method is about to be taken of an instance. -/
def Moment.takes (k : Moment) : Bool :=
  match k.event with
  | .expression (.get object name) =>
    match evaluate (invoke 9) object k.machine with
    | .ok (.instance c o) n =>
      match n.store.field? o name.lexeme, c.findMethod? name.lexeme with
      | none, some (.declared _) => true
      | _, _ => false
    | _ => false
  | _ => false

/-- A declared method of a superclass is about to be taken. -/
def Moment.takesSuper (k : Moment) : Bool :=
  match k.event with
  | .expression (.super id keyword method) =>
    match k.machine.distances[id]? with
    | some d =>
      match k.machine.store.getAt? k.machine.env d keyword.lexeme,
        k.machine.store.getAt? k.machine.env (d - 1) "this" with
      | some (.callable (.class p)), some (.instance _ _) =>
        match p.findMethod? method.lexeme with
        | some (.declared _) => true
        | _ => false
      | _, _ => false
    | none => false
  | _ => false

/-- An initializer is about to be called. -/
def Moment.initializes (k : Moment) : Bool :=
  match k.event with
  | .function closure _ =>
    closure.declaration.name.lexeme == initializerName &&
      (closure.receiver? k.machine.store).isSome
  | _ => false

theorem session_initializes_inherited :
    (∃ k ∈ initializing, ∃ object name closure c o, k.event = .expression (.get object name) ∧
      Takes closure (.instance c o) (evaluate (invoke 9) (.get object name) k.machine)) ∧
    (∃ k ∈ initializing, ∃ id keyword method closure c o,
      k.event = .expression (.super id keyword method) ∧
      Takes closure (.instance c o) (evaluate (invoke 9) (.super id keyword method) k.machine)) ∧
    ∃ k ∈ initializing, ∃ closure arguments v, k.event = .function closure arguments ∧
      closure.receiver? k.machine.store = some v ∧ ∀ fuel laps w n,
        callFunction (executeAll (invoke fuel) laps) closure arguments k.machine = .ok w n → w = v := by
  obtain ⟨get, super, session⟩ := session_initializes
  refine ⟨?_, ?_, ?_⟩
  · obtain ⟨k, mem, takes⟩ := List.any_eq_true.1
      (by decide +kernel : initializing.any Moment.takes = true)
    unfold Moment.takes at takes
    split at takes
    · next object name event =>
      split at takes
      · next c o n value =>
        split at takes
        · next closure absent found =>
          exact ⟨k, mem, object, name, closure, c, o, event, get _ _ _ _ _ _ _ _ value absent found⟩
        · cases takes
      · cases takes
    · cases takes
  · obtain ⟨k, mem, takes⟩ := List.any_eq_true.1
      (by decide +kernel : initializing.any Moment.takesSuper = true)
    unfold Moment.takesSuper at takes
    split at takes
    · next id keyword method event =>
      split at takes
      · next d recorded =>
        split at takes
        · next p c o above this =>
          split at takes
          · next closure found =>
            exact ⟨k, mem, id, keyword, method, closure, c, o, event,
              super _ _ _ _ _ _ _ _ _ _ recorded above this found⟩
          · cases takes
        · cases takes
      · cases takes
    · cases takes
  · obtain ⟨k, mem, calls⟩ := List.any_eq_true.1
      (by decide +kernel : initializing.any Moment.initializes = true)
    obtain ⟨R, attends, -⟩ := session [] .unlimited (fun _ => 0) [(9, initializingText)]
    unfold Moment.initializes at calls
    split at calls
    · next closure arguments event =>
      obtain ⟨named, bound⟩ := Bool.and_eq_true_iff.1 calls
      obtain ⟨v, bound⟩ := Option.isSome_iff_exists.1 bound
      exact ⟨k, mem, closure, arguments, v, event, bound, ((attends k mem).initializer closure
        arguments event (beq_iff_eq.1 named) v bound).2⟩
    · cases calls

end Lox
