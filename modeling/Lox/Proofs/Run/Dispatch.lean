import Mathlib.Data.List.Basic
import Lox.Evaluation
import Lox.Proofs.Grammar.Reading
import Lox.Proofs.Run.Frames

/-!
# Finding methods

What is found when a method is taken of an instance: the method of the nearest class upward, bound
to the instance (`get_taken`, `superMethod_taken`), and what a class statement makes of its methods
and its superclass (`declareClass_made`).
-/

namespace Lox

open EStateM (Result)
open Grammar (bind_ok)

/-! ### Classes -/

/-- The class and all classes above it, the nearest first. -/
def Class.upward : Class → List Class
  | ⟨id, name, none, methods⟩ => [⟨id, name, none, methods⟩]
  | ⟨id, name, some superclass, methods⟩ => ⟨id, name, some superclass, methods⟩ :: superclass.upward

/-- The nearest of the classes that has a method of the name, with its method. -/
structure Nearest (classes : List Class) (name : String) (k : Class) (method : Method) : Prop where
  split : ∃ before after, classes = before ++ k :: after ∧ ∀ b ∈ before, b.methods.lookup name = none
  own : k.methods.lookup name = some method

theorem nearest_cons {classes : List Class} {name : String} {c k : Class} {method : Method}
    (none : c.methods.lookup name = none) (h : Nearest classes name k method) :
    Nearest (c :: classes) name k method := by
  obtain ⟨before, after, rfl, others⟩ := h.split
  exact ⟨⟨c :: before, after, rfl, List.forall_mem_cons.2 ⟨none, others⟩⟩, h.own⟩

theorem nearest_head {classes : List Class} {name : String} {c : Class} {method : Method}
    (own : c.methods.lookup name = some method) : Nearest (c :: classes) name c method :=
  ⟨⟨[], classes, rfl, List.forall_mem_nil _⟩, own⟩

/-- A method that is found is one of the nearest class, and if none is found there is none. -/
theorem Class.findMethod?_spec (name : String) : (c : Class) →
    (∀ method, c.findMethod? name = some method → ∃ k, Nearest c.upward name k method) ∧
      (c.findMethod? name = none → ∀ k ∈ c.upward, k.methods.lookup name = none)
  | ⟨_, _, none, _⟩ =>
    ⟨fun _ found => ⟨_, nearest_head found⟩, fun absent => List.forall_mem_singleton.2 absent⟩
  | ⟨id, className, some superclass, methods⟩ => by
    have above := Class.findMethod?_spec name superclass
    cases own : methods.lookup name with
    | some method =>
      have found : Class.findMethod? name ⟨id, className, some superclass, methods⟩ = some method := by
        rw [Class.findMethod?, own]
      rw [found]
      exact ⟨fun _ same => ⟨_, nearest_head (own.trans same)⟩, nofun⟩
    | none =>
      have found : Class.findMethod? name ⟨id, className, some superclass, methods⟩ =
          superclass.findMethod? name := by
        rw [Class.findMethod?, own]
      rw [found]
      refine ⟨fun method inherited => ?_, fun absent => List.forall_mem_cons.2 ⟨own, above.2 absent⟩⟩
      obtain ⟨k, nearest⟩ := above.1 method inherited
      exact ⟨k, nearest_cons own nearest⟩

/-- The last of the declarations of a name. -/
def lastOf (name : String) (ds : List FunctionDecl) : Option FunctionDecl :=
  (ds.filter (·.name.lexeme == name)).getLast?

theorem methodTable_lookup (env : Env) (ds : List FunctionDecl) (name : String) :
    (methodTable env ds).lookup name = (lastOf name ds).map fun d =>
      .declared ⟨d, env, d.name.lexeme == initializerName⟩ := by
  unfold methodTable lastOf
  rw [← List.map_reverse, List.getLast?_eq_head?_reverse, ← List.filter_reverse]
  induction ds.reverse with
  | nil => rfl
  | cons d ds ih =>
    rw [List.map_cons, List.lookup_cons, List.filter_cons]
    by_cases same : d.name.lexeme = name
    · simp [same]
    · rw [beq_false_of_ne (Ne.symm same), beq_false_of_ne same]
      exact ih

/-! ### Class statements -/

/-- What a class statement leaves: a class under its name, with a superclass and with methods. -/
structure Made (name : Token) (superclass : Option Class) (methods : List FunctionDecl) (n : Machine)
    (k : Class) (env : Env) : Prop where
  bound : n.store.get? n.env name.lexeme = some (.callable (.class k))
  above : k.superclass = superclass
  /-- The method of a name is the last one declared. -/
  table : ∀ x, k.methods.lookup x = (lastOf x methods).map fun d =>
    .declared ⟨d, env, d.name.lexeme == initializerName⟩
  /-- Methods close over the scopes of the statement, and over one of `super`. -/
  base : superclass = none → env = n.env
  derived : ∀ p, superclass = some p → ∃ frame, env = frame :: n.env ∧
    n.store.getHere? frame "super" = some (.callable (.class p))

theorem assignClass_run (name : Token) (k : Class) (m : Machine) :
    assignClass name k m =
      (match m.store.owner? m.env name.lexeme with
        | some frame =>
          (modify fun m : Machine => m.mapStore
            (·.put frame name.lexeme (.callable (.class k))) : Eval Unit)
        | none => fail name.line (.undefinedVariable name.lexeme)) m := rfl

theorem assignClass_ok {name : Token} {k : Class} {m n : Machine}
    (ran : assignClass name k m = .ok () n) :
    ∃ frame, m.store.owner? m.env name.lexeme = some frame ∧
      n = m.mapStore (·.put frame name.lexeme (.callable (.class k))) := by
  rw [assignClass_run] at ran
  cases owner : m.store.owner? m.env name.lexeme with
  | none =>
    rw [owner] at ran
    cases ran
  | some frame =>
    rw [owner] at ran
    cases ran
    exact ⟨frame, rfl, rfl⟩

theorem methodEnv_ok {superclass : Option Class} {m n : Machine} {env : Env}
    (ran : methodEnv superclass m = .ok env n) :
    n.env = m.env ∧ (superclass = none → env = m.env) ∧
      ∀ p, superclass = some p → ∃ frame, env = frame :: m.env ∧
        n.store.getHere? frame "super" = some (.callable (.class p)) := by
  cases superclass with
  | none =>
    cases ran
    exact ⟨rfl, fun _ => rfl, nofun⟩
  | some p =>
    cases ran
    refine ⟨rfl, nofun, fun p' same => ⟨m.store.frames.size, rfl, ?_⟩⟩
    cases same
    exact (getHere?_child_put _ m.env _ _ _ _).trans (if_pos ⟨rfl, rfl⟩)

theorem declareClass_made {call : Invoke} {name : Token} {superclass : Option Expr}
    {methods : List FunctionDecl} {m n : Machine} (other : name.lexeme ≠ "super")
    (ran : declareClass call name superclass methods m = .ok () n) :
    ∃ parent m', evaluateSuperclass call name superclass m = .ok parent m' ∧
      ∃ k env, Made name parent methods n k env := by
  obtain ⟨parent, m₁, evaluated, rest⟩ := bind_ok ran
  obtain ⟨-, m₂, defined, rest⟩ := bind_ok rest
  obtain ⟨env, m₃, opened, rest⟩ := bind_ok rest
  obtain ⟨id, m₄, named, assigned⟩ := bind_ok rest
  obtain ⟨same, base, derived⟩ := methodEnv_ok opened
  obtain ⟨frame, owner, rfl⟩ := assignClass_ok assigned
  cases named
  refine ⟨parent, m₁, evaluated, _, env, get?_put_owner owner _, rfl, methodTable_lookup env methods,
    fun none => (base none).trans same.symm, fun p some => ?_⟩
  obtain ⟨f, inner, holds⟩ := derived p some
  rw [← same] at inner
  exact ⟨f, inner, (getHere?_put_other _ _ other _ f).trans holds⟩

/-! ### Methods of instances -/

/-- The machine with a new scope inside `env` that binds `this`, for a new callable. -/
def Machine.receive (m : Machine) (env : Env) (receiver : Value) : Machine :=
  { m with
    store := (m.store.child env).2.put m.store.frames.size "this" receiver
    nextIdentity := m.nextIdentity + 1 }

/-- What it comes to if the method of a name is looked for in the classes, for the instance `o` of
the class `c`. -/
inductive Taken (m : Machine) (classes : List Class) (c : Class) (o : ObjectId) (name : Token) :
    Result Halt Machine Value → Prop
  /-- The function of the nearest class that has one, in a new scope that binds `this`. -/
  | declared {k : Class} {closure : Closure}
      (nearest : Nearest classes name.lexeme k (.declared closure)) :
      Taken m classes c o name (.ok
        (.callable (.function m.nextIdentity
          { closure with env := m.store.frames.size :: closure.env }))
        (m.receive closure.env (.instance c o)))
  | native {k : Class} {op : Native} (nearest : Nearest classes name.lexeme k (.native op)) :
      Taken m classes c o name (.ok (.callable (.native m.nextIdentity op (some o)))
        { m with nextIdentity := m.nextIdentity + 1 })
  | missing (absent : ∀ k ∈ classes, k.methods.lookup name.lexeme = none) :
      Taken m classes c o name
        (.error (.error (.program name.line (.undefinedProperty name.lexeme))) m)

/-- Looks for a method upward from a class and binds it to an instance. -/
def takeMethod (k c : Class) (o : ObjectId) (name : Token) : Eval Value := do
  let method ← orFail name.line (.undefinedProperty name.lexeme) (k.findMethod? name.lexeme)
  return .callable (← bindMethod c o method)

theorem takeMethod_taken (k c : Class) (o : ObjectId) (name : Token) (m : Machine) :
    Taken m k.upward c o name (takeMethod k c o name m) := by
  have spec := k.findMethod?_spec name.lexeme
  unfold takeMethod
  cases found : k.findMethod? name.lexeme with
  | none => exact .missing (spec.2 found)
  | some method =>
    obtain ⟨k', nearest⟩ := spec.1 method found
    cases method with
    | declared closure => exact .declared nearest
    | native op => exact .native nearest

/-- The value of `o.m` is the field if there is one, and else a method. -/
theorem get_taken {call : Invoke} {object : Expr} {m n : Machine} {c : Class} {o : ObjectId}
    (value : evaluate call object m = .ok (.instance c o) n) (name : Token) :
    (∀ v, n.store.field? o name.lexeme = some v →
      evaluate call (.get object name) m = .ok v n) ∧
    (n.store.field? o name.lexeme = none →
      Taken n c.upward c o name (evaluate call (.get object name) m)) := by
  have property : evaluate call (.get object name) m = getProperty c o name n :=
    Grammar.bind_of_ok value
  rw [property, getProperty, Grammar.get_bind]
  refine ⟨fun v found => ?_, fun absent => ?_⟩
  · simp only [found]
    rfl
  · simp only [absent]
    exact takeMethod_taken c c o name n

/-! ### Methods of superclasses -/

section Super

variable {m : Machine} {id : NodeId} {d : Nat} {keyword : Token} {v : Value} {c : Class}
  {o : ObjectId}

theorem superMethod_run (id : NodeId) (keyword method : Token) (m : Machine) :
    superMethod id keyword method m = (do
      let distance ← orFail keyword.line .superOutsideClass (m.distances[id]?)
      let found ← orFail keyword.line (.undefinedVariable keyword.lexeme)
        (m.store.getAt? m.env distance keyword.lexeme)
      let superclass ← orFail keyword.line .superclassNotClass (classOf? found)
      let (c, object) ← orFail keyword.line (.undefinedVariable "this")
        ((m.store.getAt? m.env (distance - 1) "this").bind instanceOf?)
      takeMethod superclass c object method : Eval Value) m := rfl

/-- Once the superclass and the instance are found. -/
theorem superMethod_placed (recorded : m.distances[id]? = some d)
    (found : m.store.getAt? m.env d keyword.lexeme = some v)
    (receiver : m.store.getAt? m.env (d - 1) "this" = some (.instance c o)) (method : Token) :
    superMethod id keyword method m = (do
      let superclass ← orFail keyword.line .superclassNotClass (classOf? v)
      takeMethod superclass c o method : Eval Value) m := by
  rw [superMethod_run, recorded]
  show (orFail keyword.line _ (m.store.getAt? m.env d keyword.lexeme) >>= _ : Eval Value) m = _
  rw [found]
  show (orFail keyword.line _ (classOf? v) >>= _ : Eval Value) m = _
  rw [receiver]
  rfl

theorem superMethod_taken {parent : Class} (recorded : m.distances[id]? = some d)
    (found : m.store.getAt? m.env d keyword.lexeme = some (.callable (.class parent)))
    (receiver : m.store.getAt? m.env (d - 1) "this" = some (.instance c o)) (method : Token) :
    Taken m parent.upward c o method (superMethod id keyword method m) := by
  rw [superMethod_placed recorded found receiver method]
  exact takeMethod_taken parent c o method m

end Super

end Lox
