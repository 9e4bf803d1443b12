import Lox.Proofs.Run.Capped
import Lox.Proofs.Run.Graph

/-!
# Keeping to a graph

What runs on a machine that a graph fits ends on one that a later graph fits, however it ends, and all
moments on the way are described by that graph (`runAll_linked`).
-/

namespace Lox

open EStateM (Result)
open Trace (silent)

namespace Graph

/-! ### Machines -/

namespace Fits

variable {G : Graph} {m : Machine}

/-- What a graph says of a machine is about these parts of it. -/
theorem of_same {n : Machine} (h : G.Fits m) (store : n.store = m.store) (env : n.env = m.env)
    (identity : n.nextIdentity = m.nextIdentity) : G.Fits n where
  env := env ▸ h.env
  store := store ▸ h.store
  scopes := store ▸ h.scopes
  callables := identity ▸ h.callables

theorem inEnv (h : G.Fits m) {env : Env} (chain : G.Chain env) : G.Fits { m with env } :=
  { h with env := chain }

/-- The store is changed, but has the same scopes. -/
theorem withStore (h : G.Fits m) {s : Store} (all : s.All G.Holds)
    (frames : s.frames.size = m.store.frames.size) : G.Fits { m with store := s } :=
  { h with store := all, scopes := h.scopes.trans frames.symm }

theorem put (h : G.Fits m) {v : Value} (own : G.Holds v) (frame : FrameId) (name : String) :
    G.Fits (m.mapStore (·.put frame name v)) :=
  h.withStore (h.store.put own frame name) Array.size_modify

theorem define (h : G.Fits m) {v : Value} (own : G.Holds v) (env : Env) (name : String) :
    G.Fits (m.mapStore (·.define env name v)) := by
  cases env with
  | nil => exact h
  | cons frame env => exact h.put own frame name

theorem setField (h : G.Fits m) {v : Value} (own : G.Holds v) (o : ObjectId) (name : String) :
    G.Fits (m.mapStore (·.setField o name v)) :=
  h.withStore (h.store.setField own o name) rfl

theorem allocate (h : G.Fits m) : G.Fits (m.withStore (·.allocate)).2 :=
  h.withStore h.store.allocate rfl

theorem child (h : G.Fits m) {g : FrameId} {env : Env} (outer : G.Chain (g :: env)) :
    (G.addScope outer).Fits (m.withStore (·.child (g :: env))).2 where
  env := (later_addScope outer).chain h.env
  store := (h.store.child (g :: env)).mono fun _ => (later_addScope outer).holds
  scopes := by
    show (G.scopes ++ [some g]).length = (m.store.frames.push ∅).size
    rw [List.length_append, h.scopes, Array.size_push, List.length_singleton]
  callables := h.callables

theorem addCallable (h : G.Fits m) {o : Option Class} (admits : ∀ c, o = some c → G.Admits c) :
    (G.addCallable o admits).Fits { m with nextIdentity := m.nextIdentity + 1 } where
  env := (later_addCallable admits).chain h.env
  store := h.store.mono fun _ => (later_addCallable admits).holds
  scopes := h.scopes
  callables := by
    show (G.callables ++ [o]).length = m.nextIdentity + 1
    rw [List.length_append, h.callables, List.length_singleton]

end Fits

theorem holds_plain {G : Graph} (v : Value) (plain : v.Plain) : G.Holds v := by
  cases plain <;> trivial

/-! ### The judgment -/

/-- The end of a computation and the moments before it, as a graph has them. -/
structure Kept {α : Type} (H : Graph) (r : Result Halt Machine α) (moments : List Moment)
    (Q : Graph → α → Prop) : Prop where
  fits : H.Fits (final r)
  ends : Ends r (Q H)
  sees : ∀ k ∈ moments, H.Sees k

def GoodMethod (G : Graph) : Method → Prop
  | .declared closure => G.Chain closure.env
  | .native _ => True

end Graph

/-- What is fitted by a graph is fitted by a later one afterwards. -/
def linked : Judgment where
  Strict := False
  World := Graph
  Later := Graph.Later
  GoodEnv := Graph.Chain
  GoodFunction G closure := G.Chain closure.env
  GoodNative _ _ _ := True
  GoodMethod := Graph.GoodMethod
  GoodClass := Graph.Knows
  GoodInstance G c _ := G.Knows c
  Does G x t Q := ∀ m, G.Fits m → ∃ H, G.Later H ∧ H.Kept (x m) (t m) Q

namespace Linked

variable {G : Graph} {α β : Type} {Q : Graph → α → Prop}

theorem good_iff {v : Value} : linked.Good G v ↔ G.Holds v := by
  cases v with
  | callable c => cases c <;> exact Iff.rfl
  | nil | bool | number | string | «instance» => exact Iff.rfl

/-! ### Rules -/

/-- A step that needs no more of the graph. -/
theorem stay {x : Eval α} (h : ∀ m, G.Fits m → G.Fits (final (x m)) ∧ Ends (x m) (Q G)) :
    linked.Does G x silent Q := fun m fits =>
  ⟨G, .refl G, (h m fits).1, (h m fits).2, List.forall_mem_nil _⟩

theorem pure {a : α} (good : ∀ H, G.Later H → Q H a) : linked.Does G (Pure.pure a) silent Q :=
  stay fun m fits => ⟨fits, fun b _ same => by
    cases same
    exact good G (.refl G)⟩

theorem throw {e : Halt} : linked.Does G (MonadExcept.throw e : Eval α) silent Q :=
  stay fun _ fits => ⟨fits, ends_error⟩

theorem get {f : Machine → Eval α} (h : ∀ m, G.Fits m → linked.Does G (f m) silent Q) :
    linked.Does G (MonadState.get >>= f) silent Q :=
  fun m fits => h m fits m fits

theorem modify {f : Machine → Machine} (h : ∀ m, G.Fits m → G.Fits (f m)) :
    linked.Does G (modify f) silent linked.AnyValue :=
  stay fun m fits => ⟨h m fits, fun _ _ _ => trivial⟩

theorem orFail {o : Option α} (line : Nat) (cause : RuntimeFault) (good : ∀ a, o = some a → Q G a) :
    linked.Does G (Lox.orFail line cause o) silent Q := by
  cases o with
  | none => exact throw
  | some a =>
    exact stay fun m fits => ⟨fits, fun b _ same => by
      cases same
      exact good a rfl⟩

theorem bind {x : Eval α} {f : α → Eval β} {t : Trace} {next : α → Trace} {R : Graph → β → Prop}
    (first : linked.Does G x t Q)
    (second : ∀ H a, G.Later H → Q H a → linked.Does H (f a) (next a) R) :
    linked.Does G (x >>= f) (t.bind x next) R := by
  intro m fits
  obtain ⟨H, later, kept⟩ := first m fits
  cases ended : x m with
  | ok a n =>
    rw [ended] at kept
    obtain ⟨K, more, last⟩ := second H a later (kept.ends a n rfl) n kept.fits
    rw [Grammar.bind_of_ok ended, Trace.bind_of_ok ended]
    refine ⟨K, later.trans more, last.fits, last.ends, fun k mem => ?_⟩
    obtain first | second := List.mem_append.1 mem
    · exact more.sees (kept.sees k first)
    · exact last.sees k second
  | error e n =>
    rw [ended] at kept
    rw [Grammar.bind_of_error ended, Trace.bind_of_error ended]
    exact ⟨H, later, kept.fits, fun _ _ is => (by cases is), kept.sees⟩

theorem andThen {x : Eval α} {f : α → Eval β} {R : Graph → β → Prop}
    (first : linked.Does G x silent Q)
    (second : ∀ H a, G.Later H → Q H a → linked.Does H (f a) silent R) :
    linked.Does G (x >>= f) silent R := by
  rw [← silent.bind_silent x]
  exact bind first second

theorem mark {x : Eval α} {t : Trace} {event : Act} (own : G.Involves event)
    (h : linked.Does G x t Q) : linked.Does G x (Trace.mark event t) Q := by
  intro m fits
  obtain ⟨H, later, kept⟩ := h m fits
  have now : G.Sees ⟨event, m⟩ := ⟨fits.toDescribes, own⟩
  exact ⟨H, later, kept.fits, kept.ends, List.forall_mem_cons.2 ⟨later.sees now, kept.sees⟩⟩

theorem within {x : Eval α} {t : Trace} {env : Env} (inside : G.Chain env)
    (h : linked.Does G x t Q) : linked.Does G (Lox.within env x) (t.within env) Q := by
  intro m fits
  obtain ⟨H, later, kept⟩ := h { m with env } (fits.inEnv inside)
  have former := later.chain fits.env
  rw [within_run]
  cases ended : x { m with env } with
  | ok a n =>
    rw [ended] at kept
    refine ⟨H, later, kept.fits.inEnv former, fun b _ same => ?_, kept.sees⟩
    cases same
    exact kept.ends a n rfl
  | error e n =>
    rw [ended] at kept
    exact ⟨H, later, kept.fits.inEnv former, ends_error, kept.sees⟩

/-! ### Single steps -/

theorem lookUp (id : NodeId) (name : Token) :
    linked.Does G (Lox.lookUp id name) silent linked.Good :=
  get fun _ fits => orFail _ _ fun _ found => good_iff.2 (Machine.valueAt?_all fits.store found)

theorem defineIn {v : Value} (env : Env) (name : String) (own : G.Holds v) :
    linked.Does G (Lox.defineIn env name v) silent linked.AnyValue :=
  modify fun _ fits => fits.define own env name

theorem assignName {v : Value} (id : NodeId) (name : Token) (own : G.Holds v) :
    linked.Does G (Lox.assignName id name v) silent linked.AnyValue := by
  refine get fun m _ => ?_
  cases m.ownerOf? id name.lexeme with
  | none => exact throw
  | some frame => exact modify fun _ fits => fits.put own frame name.lexeme

theorem assignClass {c : Class} (name : Token) (known : G.Knows c) :
    linked.Does G (Lox.assignClass name c) silent linked.AnyValue := by
  refine get fun m _ => ?_
  cases m.store.owner? m.env name.lexeme with
  | none => exact throw
  | some frame => exact modify fun _ fits => fits.put (v := .callable (.class c)) known frame _

/-- The identity goes to something else than a class. -/
theorem freshIdentity : linked.Does G Lox.freshIdentity silent linked.AnyValue := fun _ fits =>
  ⟨G.addCallable none G.admits_none, Graph.later_addCallable _, fits.addCallable _,
    fun _ _ _ => trivial, List.forall_mem_nil _⟩

theorem childEnv {env : Env} (outer : G.Chain env) :
    linked.Does G (Lox.childEnv env) silent Graph.Chain := by
  intro m fits
  obtain ⟨g, env, rfl⟩ := outer.exists_cons
  refine ⟨G.addScope outer, Graph.later_addScope outer, fits.child outer, fun inner n same => ?_,
    List.forall_mem_nil _⟩
  cases same
  have chain := Graph.chain_addScope outer
  rw [fits.scopes] at chain
  exact chain

theorem bindMethod {c : Class} {method : Method} (o : ObjectId) (known : G.Knows c)
    (own : G.GoodMethod method) :
    linked.Does G (Lox.bindMethod c o method) silent linked.GoodCallable := by
  cases method with
  | declared closure =>
    refine andThen (childEnv own) fun H env later inner => ?_
    refine andThen (defineIn env "this" (v := .instance c o) (later.knows known)) fun K _ more _ => ?_
    exact andThen freshIdentity fun J _ most _ => pure fun L last =>
      last.chain (most.chain (more.chain inner))
  | native op => exact andThen freshIdentity fun _ _ _ _ => pure fun _ _ => trivial

theorem found {c : Class} {name : String} {method : Method} (known : G.Knows c)
    (found : c.findMethod? name = some method) : G.GoodMethod method := by
  obtain ⟨k, nearest⟩ := (c.findMethod?_spec name).1 method found
  obtain ⟨before, after, upward, -⟩ := nearest.split
  have known : G.Knows k := Graph.knows_upward c known k (by simp [upward])
  obtain ⟨above, below, table, -⟩ := List.lookup_eq_some_iff.1 nearest.own
  cases method with
  | native op => trivial
  | declared closure =>
    have own : (name, .declared closure) ∈ k.methods := by simp [table]
    exact Graph.knows_method known own rfl

/-- What is found under `super` is a class, and under `this` an instance. -/
theorem superMethod (id : NodeId) (keyword method : Token) :
    linked.Does G (Lox.superMethod id keyword method) silent linked.Good := by
  refine get fun m fits => ?_
  refine andThen (Q := fun _ _ => True) (orFail _ _ fun _ _ => trivial) fun H distance later _ => ?_
  refine andThen (Q := Graph.Holds) (orFail _ _ fun v is => later.holds (fits.store.getAt? is))
    fun J v more own => ?_
  refine andThen (Q := Graph.Knows) (orFail _ _ fun c is => ?_) fun K c most known => ?_
  · cases v with
    | callable k =>
      cases k with
      | «class» k =>
        cases is
        exact own
      | function | native => cases is
    | nil | bool | number | string | «instance» => cases is
  have later := later.trans (more.trans most)
  refine andThen (Q := fun L receiver => L.Knows receiver.1) (orFail _ _ fun receiver is => ?_)
    fun L receiver last inside => ?_
  · obtain ⟨v, bound, is⟩ := Option.bind_eq_some_iff.1 is
    have own := later.holds (fits.store.getAt? bound)
    cases v with
    | «instance» =>
      cases is
      exact own
    | nil | bool | number | string | callable => cases is
  refine andThen (Q := Graph.GoodMethod) (orFail _ _ fun _ is => found (last.knows known) is)
    fun M method then_ own => ?_
  refine andThen (bindMethod receiver.2 (then_.knows inside) own) fun _ c _ good => ?_
  exact pure fun N after => good_iff.2 (after.holds ((good_iff (v := .callable c)).1 good))

theorem getProperty {c : Class} (o : ObjectId) (name : Token) (known : G.Knows c) :
    linked.Does G (Lox.getProperty c o name) silent linked.Good := by
  refine get fun m fits => ?_
  cases own : m.store.field? o name.lexeme with
  | some v => exact pure fun H later => good_iff.2 (later.holds (fits.store.fields own))
  | none =>
    refine andThen (Q := Graph.GoodMethod) (orFail _ _ fun _ is => found known is)
      fun H method later own => ?_
    refine andThen (bindMethod o (later.knows known) own) fun _ c _ good => ?_
    exact pure fun N after => good_iff.2 (after.holds ((good_iff (v := .callable c)).1 good))

theorem define {v : Value} (name : String) (own : G.Holds v) :
    linked.Does G (Lox.define name v) silent linked.AnyValue :=
  get fun m _ => defineIn m.env name own

theorem declareFunction (d : FunctionDecl) :
    linked.Does G (Lox.declareFunction d) silent linked.AnyValue :=
  andThen freshIdentity fun _ _ _ _ => get fun _ fits => define _ fits.env

theorem methodEnv {superclass : Option Class} (known : ∀ p, superclass = some p → G.Knows p) :
    linked.Does G (Lox.methodEnv superclass) silent Graph.Chain := by
  refine get fun m fits => ?_
  cases superclass with
  | none => exact pure fun H later => later.chain fits.env
  | some p =>
    refine andThen (childEnv fits.env) fun H inner later chain => ?_
    refine andThen (defineIn inner "super" (v := .callable (.class p)) (later.knows (known p rfl)))
      fun J _ more _ => ?_
    exact pure fun K last => last.chain (more.chain chain)

/-- The identity goes to the class. -/
theorem makeClass {superclass : Option Class} {env : Env} (name : Token)
    (methods : List FunctionDecl) (chain : G.Chain env)
    (known : ∀ p, superclass = some p → G.Knows p) :
    linked.Does G (Lox.freshIdentity >>= fun id => Lox.assignClass name
      ⟨id, name.lexeme, superclass, methodTable env methods⟩) silent linked.AnyValue := by
  intro m fits
  have admits : ∀ c, some (⟨m.nextIdentity, name.lexeme, superclass, methodTable env methods⟩ : Class) =
      some c → G.Admits c := by
    intro c is
    cases is
    refine ⟨fits.callables.symm, known, fun entry mem closure is => ?_⟩
    obtain ⟨d, -, rfl⟩ := List.mem_map.1 (List.mem_reverse.1 mem)
    cases is
    exact chain
  obtain ⟨H, later, kept⟩ :=
    assignClass name (Graph.knows_addCallable admits) _ (fits.addCallable admits)
  exact ⟨H, (Graph.later_addCallable admits).trans later, kept⟩

theorem result {closure : Closure} {flow : Flow} (good : linked.GoodFlow G flow) :
    linked.Does G (Lox.result closure flow) silent linked.Good := by
  unfold Lox.result
  split
  · refine get fun m fits => pure fun H later => good_iff.2 (later.holds ?_)
    cases bound : m.store.getAt? closure.env 0 "this" with
    | none => trivial
    | some v => exact fits.store.getAt? bound
  · cases flow with
    | «return» v => exact pure fun H later => good_iff.2 (later.holds (good_iff.1 good))
    | normal | «break» => exact pure fun _ _ => trivial

theorem allocate {c : Class} (known : G.Knows c) :
    linked.Does G (modifyGet (·.withStore (·.allocate))) silent
      fun H o => linked.GoodInstance H c o :=
  stay fun _ fits => ⟨fits.allocate, fun _ _ _ => known⟩

theorem callNative {arguments : List Value} (op : Native) (receiver : Option ObjectId)
    (paren : Token) (all : linked.AllGood G arguments) :
    linked.Does G (Lox.callNative op receiver arguments paren) silent linked.Good := by
  refine stay fun m fits => ?_
  have served := Native.run_all Graph.holds_plain fits.store op receiver
    fun v mem => good_iff.1 (all v mem)
  have fits : G.Fits (final (op.run receiver arguments m)) :=
    ⟨⟨served.env ▸ fits.env, served.store⟩, fits.scopes.trans (congrArg Array.size served.frames.symm),
      fits.callables.trans served.nextIdentity.symm⟩
  unfold Lox.callNative
  cases ran : op.run receiver arguments m with
  | ok v n =>
    rw [ran] at fits
    refine ⟨fits, fun w _ same => ?_⟩
    cases same
    exact good_iff.2 (served.value v n ran)
  | error cause n =>
    rw [ran] at fits
    exact ⟨fits, ends_error⟩

theorem printLine (text : String) :
    linked.Does G (Lox.printLine text) (Trace.mark (.output text) silent) linked.AnyValue := by
  refine mark trivial (stay fun m fits => ?_)
  rw [printLine_run]
  split <;> exact ⟨fits.of_same rfl rfl rfl, fun _ _ _ => trivial⟩

instance : Discipline linked where
  refl := Graph.Later.refl
  trans := Graph.Later.trans
  proper := nofun
  laterFunction later := later.chain
  laterNative _ _ := trivial
  laterEnv later := later.chain
  laterClass later := later.knows
  laterInstance later := later.knows
  found := found
  pure := Linked.pure
  throw := Linked.throw
  bind := Linked.bind
  mark {_ G _ _ _ event} good h := by
    refine mark ?_ h
    cases event with
    | output | native => exact good.elim
    | statement | expression => trivial
    | function closure arguments => exact ⟨good.1, fun v mem => good_iff.1 (good.2 v mem)⟩
    | construct c arguments => exact ⟨good.1, fun v mem => good_iff.1 (good.2 v mem)⟩
  within := Linked.within
  lookUp _ := Linked.lookUp
  assignName id name _ own := Linked.assignName id name (good_iff.1 own)
  getProperty name known := Linked.getProperty _ name known
  setField o name own := modify fun _ fits => fits.setField (good_iff.1 own) o name
  superMethod _ := Linked.superMethod
  define name _ own := Linked.define name.lexeme (good_iff.1 own)
  declareFunction _ d _ := Linked.declareFunction d
  blockEnv _ := get fun _ fits => childEnv fits.env
  methodEnv := Linked.methodEnv
  makeClass name methods _ := makeClass name methods
  callEnv := childEnv
  defineIn name _ _ own := Linked.defineIn _ name.lexeme (good_iff.1 own)
  result _ := Linked.result
  bindMethod known own := Linked.bindMethod _ known own
  allocate := Linked.allocate
  callNative paren _ all :=
    mark (fun v mem => good_iff.1 (all v mem)) (Linked.callNative _ _ paren all)
  printLine _ := Linked.printLine

end Linked

/-- A program keeps to a graph. -/
theorem runAll_linked (fuel : Nat) (program : List Stmt) {G : Graph} {m : Machine} (fits : G.Fits m) :
    ∃ H, G.Later H ∧ H.Fits (final (runAll fuel program m)) ∧
      ∀ k ∈ Trace.runAll fuel program m, H.Sees k := by
  obtain ⟨H, later, kept⟩ := Discipline.runAll_does (J := linked) fuel (w := G) program nofun m fits
  exact ⟨H, later, kept.fits, kept.sees⟩

end Lox
