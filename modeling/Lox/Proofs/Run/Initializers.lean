import Lox.Proofs.Run.Received

/-!
# Initializers

What a call comes to on a machine whose receivers are known: a method with the name of initializers
ends with the instance it was taken of, however its body ends (`initializer_yields`), any other
function with what its body returns (`callFunction_own`), and a class with a new instance
(`instantiate_yields`).
-/

namespace Lox

open EStateM (Result)

/-- The instance that a method was taken of: what the scope right around it binds to `this`. -/
def Closure.receiver? (s : Store) (closure : Closure) : Option Value :=
  s.getAt? closure.env 0 "this"

def Closure.hasInitializerName (closure : Closure) : Prop :=
  closure.declaration.name.lexeme = initializerName

/-- What a call yields whose body ends like this. -/
def Flow.value : Flow → Value
  | .return v => v
  | _ => .nil

/-- A call that yields what the body returns. -/
def callBody (run : List Stmt → Eval Flow) (closure : Closure) (arguments : List Value) :
    Eval Value := do
  let env ← childEnv closure.env
  bindParameters env closure.declaration.params arguments
  let flow ← within env (run closure.declaration.body)
  return flow.value

/-! ### Functions -/

theorem result_initializer {closure : Closure} (isInitializer : closure.isInitializer = true)
    (flow : Flow) (m : Machine) :
    result closure flow m = .ok ((closure.receiver? m.store).getD .nil) m := by
  unfold result
  rw [if_pos isInitializer]
  rfl

theorem result_own {closure : Closure} (plain : closure.isInitializer = false) (flow : Flow) :
    result closure flow = return flow.value := by
  unfold result
  rw [if_neg (Bool.eq_false_iff.1 plain)]
  cases flow <;> rfl

theorem callFunction_own {closure : Closure} (plain : closure.isInitializer = false)
    (run : List Stmt → Eval Flow) (arguments : List Value) :
    callFunction run closure arguments = callBody run closure arguments := by
  unfold callFunction callBody
  simp only [result_own plain]

/-- An initializer that comes to an end yields what is then its receiver. -/
theorem callFunction_initializer {run : List Stmt → Eval Flow} {closure : Closure}
    {arguments : List Value} {m n : Machine} {w : Value} (isInitializer : closure.isInitializer = true)
    (ran : callFunction run closure arguments m = .ok w n) :
    w = (closure.receiver? n.store).getD .nil := by
  obtain ⟨env, m₁, -, ran⟩ := Grammar.bind_ok ran
  obtain ⟨-, m₂, -, ran⟩ := Grammar.bind_ok ran
  obtain ⟨flow, m₃, -, ran⟩ := Grammar.bind_ok ran
  rw [result_initializer isInitializer] at ran
  cases ran
  rfl

namespace Receivers

section Functions

variable {R : Receivers} {closure : Closure}

/-- Whether a function is an initializer, and its receiver from now on. -/
theorem Function.receiver (h : R.Function closure) : ∃ p : Option (Class × ObjectId),
    closure.isInitializer =
        (p.isSome && closure.declaration.name.lexeme == initializerName) ∧
      ∀ {S : Receivers} {n : Machine}, R.Later S → S.Fits n →
        closure.receiver? n.store = p.map receiverValue := by
  obtain ⟨-, f, outer, p, env, known, flag⟩ := h
  refine ⟨p, flag, fun later fits => ?_⟩
  unfold Closure.receiver? Store.getAt?
  rw [env]
  exact fits.bound (getElem?_later later.scopes known)

variable {m : Machine} (fits : R.Fits m) (h : R.Function closure)

include fits h

theorem Function.own (other : ¬ closure.hasInitializerName ∨ closure.receiver? m.store = none) :
    closure.isInitializer = false := by
  obtain ⟨p, flag, receiver⟩ := h.receiver
  rw [flag, Bool.and_eq_false_iff]
  refine other.symm.imp (fun none => ?_) fun other => ?_
  · rw [receiver (.refl R) fits, Option.map_eq_none_iff] at none
    rw [none]
    rfl
  · exact beq_false_of_ne other

theorem Function.initializer (named : closure.hasInitializerName) {v : Value}
    (bound : closure.receiver? m.store = some v) :
    (∃ c o, v = .instance c o) ∧ closure.isInitializer = true ∧
      ∀ {S : Receivers} {n : Machine}, R.Later S → S.Fits n → closure.receiver? n.store = some v := by
  obtain ⟨p, flag, receiver⟩ := h.receiver
  rw [receiver (.refl R) fits] at bound
  obtain ⟨q, rfl, rfl⟩ := Option.map_eq_some_iff.1 bound
  refine ⟨⟨q.1, q.2, rfl⟩, ?_, fun later fits => receiver later fits⟩
  rw [flag, (named : closure.declaration.name.lexeme = initializerName)]
  exact beq_self_eq_true initializerName

end Functions

section Calls

variable {R : Receivers} {m n : Machine} {w : Value} (fits : R.Fits m)

include fits

theorem callFunction_kept {closure : Closure} (h : R.Function closure) {arguments : List Value}
    (given : ∀ v ∈ arguments, R.Holds v) {fuel laps : Nat}
    (ran : callFunction (executeAll (invoke fuel) laps) closure arguments m = .ok w n) :
    ∃ S, R.Later S ∧ S.Fits n ∧ S.Holds w := by
  obtain ⟨S, later, kept⟩ := Discipline.callFunction_does (J := received)
    (fun _ body own => Discipline.executeAll_does (Discipline.invoke_does fuel) laps body own)
    (w := R) h (Received.allGood_iff.2 given) m fits
  rw [ran] at kept
  exact ⟨S, later, kept.fits, Received.good_iff.1 (kept.ends w n rfl)⟩

/-- However the body of an initializer ends, the call ends with the receiver. -/
theorem initializer_yields {closure : Closure} (h : R.Function closure)
    (named : closure.hasInitializerName) {v : Value} (bound : closure.receiver? m.store = some v)
    {arguments : List Value} (given : ∀ v ∈ arguments, R.Holds v) {fuel laps : Nat}
    (ran : callFunction (executeAll (invoke fuel) laps) closure arguments m = .ok w n) : w = v := by
  obtain ⟨-, isInitializer, receiver⟩ := h.initializer fits named bound
  obtain ⟨S, later, fits, -⟩ := callFunction_kept fits h given ran
  rw [callFunction_initializer isInitializer ran, receiver later fits]
  rfl

/-- Wherever a method comes from that is called as an initializer, the value is its receiver. -/
theorem call_yields {fuel : Nat} {callee : Expr} {paren : Token} {arguments : List Expr}
    (proper : (Expr.call callee paren arguments).Proper) {id : Identity} {closure : Closure}
    {k : Machine} (evaluated : evaluate (invoke fuel) callee m = .ok (.callable (.function id closure)) k)
    (named : closure.hasInitializerName) {v : Value} (bound : closure.receiver? k.store = some v)
    (ran : evaluate (invoke fuel) (.call callee paren arguments) m = .ok w n) : w = v := by
  obtain ⟨S, later, first⟩ := Discipline.evaluate_does (J := received) (Discipline.invoke_does fuel)
    (w := R) callee (fun _ => proper.1) m fits
  rw [evaluated] at first
  have function : S.Function closure :=
    (Received.good_iff (v := .callable (.function id closure))).1 (first.ends _ k rfl)
  rw [evaluate, Grammar.bind_of_ok evaluated] at ran
  obtain ⟨vs, k', given, ran⟩ := Grammar.bind_ok ran
  -- The arguments may do anything but change what the scope around the method binds to `this`.
  obtain ⟨T, more, second⟩ := Discipline.evaluateAll_does (J := received)
    (Discipline.invoke_does fuel) (w := S) arguments (fun _ => proper.2) k first.fits
  rw [given] at second
  obtain ⟨-, -, receiver⟩ := function.initializer first.fits named bound
  have called : invoke fuel (.function id closure) vs paren k' = .ok w n := by
    unfold callWith at ran
    split at ran
    · exact ran
    · cases ran
  cases fuel with
  | zero => cases called
  | succ fuel =>
    exact initializer_yields second.fits (Receivers.Later.function more function) named
      (receiver more second.fits) (Received.allGood_iff.1 (second.ends vs k' rfl)) called

end Calls

end Receivers

/-! ### Taking methods -/

theorem bindMethod_bound (c : Class) (o : ObjectId) (closure : Closure) (m : Machine) :
    ∃ id bound n, bindMethod c o (.declared closure) m = .ok (.function id bound) n ∧
      bound.declaration = closure.declaration ∧ bound.receiver? n.store = some (.instance c o) :=
  ⟨_, _, _, rfl, rfl, (getHere?_child_put m.store closure.env "this" _ _ "this").trans
    (if_pos ⟨rfl, rfl⟩)⟩

/-- What is made of a method that is taken of an instance: a function of the same declaration, with
the instance as its receiver. -/
def Takes (closure : Closure) (receiver : Value) (r : Result Halt Machine Value) : Prop :=
  ∃ id bound n, r = .ok (.callable (.function id bound)) n ∧
    bound.declaration = closure.declaration ∧ bound.receiver? n.store = some receiver

section Taking

variable {k c : Class} {o : ObjectId} {closure : Closure} {m : Machine}

theorem takeMethod_takes {name : Token}
    (found : k.findMethod? name.lexeme = some (.declared closure)) :
    Takes closure (.instance c o) (takeMethod k c o name m) := by
  obtain ⟨id, bound, n, taken, declaration, receiver⟩ := bindMethod_bound c o closure m
  refine ⟨id, bound, n, ?_, declaration, receiver⟩
  unfold takeMethod
  rw [found]
  show (bindMethod c o (.declared closure) >>= fun b => return .callable b : Eval Value) m = _
  rw [Grammar.bind_of_ok taken]
  rfl

/-- `x.m` has the receiver `x`, unless `x` has a field of the name. -/
theorem get_takes {call : Invoke} {object : Expr} {name : Token} {n : Machine}
    (value : evaluate call object m = .ok (.instance c o) n)
    (absent : n.store.field? o name.lexeme = none)
    (found : c.findMethod? name.lexeme = some (.declared closure)) :
    Takes closure (.instance c o) (evaluate call (.get object name) m) := by
  have property : evaluate call (.get object name) m = takeMethod c c o name n := by
    refine (Grammar.bind_of_ok value).trans ?_
    show getProperty c o name n = _
    rw [getProperty, Grammar.get_bind]
    simp only [absent]
    rfl
  rw [property]
  exact takeMethod_takes found

/-- `super.m` has the receiver that `this` denotes there. -/
theorem super_takes {call : Invoke} {id : NodeId} {keyword method : Token} {d : Nat}
    (recorded : m.distances[id]? = some d)
    (above : m.store.getAt? m.env d keyword.lexeme = some (.callable (.class k)))
    (this : m.store.getAt? m.env (d - 1) "this" = some (.instance c o))
    (found : k.findMethod? method.lexeme = some (.declared closure)) :
    Takes closure (.instance c o) (evaluate call (.super id keyword method) m) := by
  have placed : evaluate call (.super id keyword method) m = takeMethod k c o method m :=
    superMethod_placed recorded above this method
  rw [placed]
  exact takeMethod_takes found

end Taking

/-! ### Classes -/

/-- How the call of a class ends, if it does: with an instance whose object is new, and which is the
receiver of the initializer that was run, if the class has one. -/
structure Constructed (m : Machine) (c : Class) (arguments : List Value)
    (run : List Stmt → Eval Flow) (v : Value) (n : Machine) : Prop where
  value : v = .instance c m.store.objects.size
  made : m.store.objects.size < n.store.objects.size
  initialized : ∀ closure, c.findMethod? initializerName = some (.declared closure) →
    ∃ id bound k, bindMethod c m.store.objects.size (.declared closure)
        (m.withStore (·.allocate)).2 = .ok (.function id bound) k ∧
      bound.receiver? k.store = some v ∧ callFunction run bound arguments k = .ok v n

namespace Receivers

variable {R : Receivers} {m : Machine} (fits : R.Fits m)

include fits

/-- No value in the machine has the object that comes next. -/
theorem Fits.fresh : m.store.All fun v => ∀ c, v ≠ .instance c m.store.objects.size :=
  fits.store.mono fun v own c same => by
    subst same
    exact Nat.ne_of_lt own.2 fits.objects.symm

omit fits in
/-- A method of the name of initializers, taken of an instance and called, ends with it. -/
theorem callBound_yields {o : ObjectId} {c : Class} (fits : R.Fits m) (own : R.Holds (.instance c o))
    {closure : Closure} (flag : closure.NamedFlag) (named : closure.hasInitializerName)
    {arguments : List Value} (given : ∀ v ∈ arguments, R.Holds v) {id : Identity} {bound : Closure}
    {k : Machine} (taken : bindMethod c o (.declared closure) m = .ok (.function id bound) k)
    {fuel laps : Nat} {w : Value} {n : Machine}
    (ran : callFunction (executeAll (invoke fuel) laps) bound arguments k = .ok w n) :
    w = .instance c o := by
  have binds : receivers.Does R (bindMethod c o (.declared closure)) Trace.silent
      received.GoodCallable := Received.bindMethod own flag
  obtain ⟨S, later, kept⟩ := binds m fits
  obtain ⟨id', bound', k', same, declaration, receiver⟩ := bindMethod_bound c o closure m
  rw [taken] at same kept
  cases same
  have name : bound.hasInitializerName := by
    unfold Closure.hasInitializerName
    rw [declaration]
    exact named
  exact initializer_yields kept.fits (kept.ends _ k rfl) name receiver
    (fun v mem => Receivers.Later.holds later (given v mem)) ran

theorem instantiate_yields {c : Class} (named : c.Named) {arguments : List Value}
    (given : ∀ v ∈ arguments, R.Holds v) {fuel laps : Nat} {paren : Token} {v : Value} {n : Machine}
    (ran : instantiate (executeAll (invoke fuel) laps) c arguments paren m = .ok v n) :
    Constructed m c arguments (executeAll (invoke fuel) laps) v n := by
  obtain ⟨S, -, kept⟩ := Discipline.instantiate_does (J := received)
    (fun _ body own => Discipline.executeAll_does (Discipline.invoke_does fuel) laps body own)
    (w := R) paren named (Received.allGood_iff.2 given) m fits
  rw [ran] at kept
  have good : S.Holds v := Received.good_iff.1 (kept.ends v n rfl)
  have objects : S.objects = n.store.objects.size := kept.fits.objects
  have later := later_addObject (R := R)
  -- What the initializer yields is dropped and the new instance yielded: these are the same.
  unfold instantiate at ran
  obtain ⟨o, m₁, made, ran⟩ := Grammar.bind_ok ran
  cases made
  cases found : c.findMethod? initializerName with
  | none =>
    rw [found] at ran
    cases ran
    exact ⟨rfl, objects ▸ good.2, fun closure is => nomatch found.symm.trans is⟩
  | some method =>
    rw [found] at ran
    obtain ⟨w, n', called, ended⟩ := Grammar.bind_ok ran
    cases ended
    refine ⟨rfl, objects ▸ good.2, fun closure is => ?_⟩
    obtain rfl : method = .declared closure := Option.some.inj (found.symm.trans is)
    obtain ⟨id, bound, k, taken, -, receiver⟩ :=
      bindMethod_bound c m.store.objects.size closure (m.withStore (·.allocate)).2
    refine ⟨id, bound, k, taken, receiver, ?_⟩
    have called : callFunction (executeAll (invoke fuel) laps) bound arguments k = .ok w n :=
      (Grammar.bind_of_ok taken).symm.trans called
    have own := named.found found
    rw [called, callBound_yields fits.allocate ⟨named, ?_⟩ own.1 own.2
      (fun v mem => later.holds (given v mem)) taken called]
    exact Nat.lt_of_lt_of_eq (Nat.lt_succ_self _) (congrArg (· + 1) fits.objects.symm)

end Receivers

end Lox
