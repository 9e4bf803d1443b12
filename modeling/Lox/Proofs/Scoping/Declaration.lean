import Lox.Proofs.Run.Dispatch
import Lox.Proofs.Scoping.Expression

/-!
# Declarations in both runs

Where a statement stands (`Stands`), and what a declaration does there: first the reference run
makes a cell, then both runs give the name its value.
-/

namespace Lox.Scoping

open Binding (Scope Site Origin Context Walk Placed Ready Settled Declares)
open Lexical (Names CellId Exec newCell)
open Watched (Watch)

/-- A statement may stand here. -/
structure Stands (W : World) (c : Context) (scopes : List Scope) (origins : List Origin)
    (scope : Lexical.Scope) (env : Env) : Prop where
  here : Here W scopes origins scope.names env
  isLocal : scope.isLocal = !scopes.isEmpty
  placed : Placed c scopes
  settled : Settled scopes

namespace Stands

variable {W W' : World} {c : Context} {scopes : List Scope} {origins : List Origin}
  {scope scope' : Lexical.Scope} {env : Env}

theorem inside (h : Stands W c scopes origins scope env) :
    Inside W c scopes origins scope.names env :=
  ⟨h.here, h.settled.ready, h.placed⟩

theorem grow (h : Stands W c scopes origins scope env) (grow : Grow none W W') :
    Stands W' c scopes origins scope env :=
  { h with here := h.here.grow grow }

/-- What the statements in a branch or in a loop made is forgotten after it. -/
theorem back (h : Stands W c scopes origins scope env) (le : W.Le W')
    (k : Stands W' c scopes origins scope' env) : Stands W' c scopes origins scope env :=
  { h with here := ⟨h.here.toScoped.mono le, k.here.exact⟩ }

end Stands

/-- The name that was declared last, in the innermost frame and in its cell. -/
structure Target (W : World) (scope : Lexical.Scope) (f : FrameId) (rest : Env) (name : String) :
    Prop where
  top : scope.isLocal = false → f = globalFrame ∧ rest = []
  inner : scope.isLocal = true →
    ∃ c names, scope.names = c :: names ∧ W.cells[c]? = some (f, name)

theorem Target.mono {W W' : World} {scope : Lexical.Scope} {f : FrameId} {rest : Env}
    {name : String} (h : Target W scope f rest name) (le : W.Le W') :
    Target W' scope f rest name := by
  refine ⟨h.top, fun isLocal => ?_⟩
  obtain ⟨c, names, same, cell⟩ := h.inner isLocal
  exact ⟨c, names, same, le.cell cell⟩

/-- A name is declared and not defined yet. -/
structure Declared (W : World) (c : Context) (declared defined : List Scope)
    (origins : List Origin) (scope : Lexical.Scope) (f : FrameId) (rest : Env) (name : Token) :
    Prop where
  inside : Inside W c declared origins scope.names (f :: rest)
  target : Target W scope f rest name.lexeme
  next : ∀ W', Grow none W W' →
    Stands (W'.bind f name.lexeme) c defined origins scope (f :: rest)

section Declarations

variable {W : World} {c : Context} {before declared defined : List Scope} {origins : List Origin}
  {scope : Lexical.Scope} {f : FrameId} {rest : Env} {name : Token}

theorem Declared.grow {W' : World}
    (h : Declared W c declared defined origins scope f rest name) (grow : Grow none W W') :
    Declared W' c declared defined origins scope f rest name :=
  ⟨h.inside.grow grow, h.target.mono grow.le, fun W'' more => h.next W'' (grow.trans more)⟩

theorem Stands.top_env (h : Stands W c [] origins scope (f :: rest)) :
    f = globalFrame ∧ rest = [] := by
  have depth := h.here.depth
  have root := h.here.root
  cases rest with
  | nil => exact ⟨Option.some.inj root, rfl⟩
  | cons g rest => exact absurd depth (by simp)

/-- The reference run makes a cell for a local name; the watched run does nothing yet. -/
theorem declare_sim (h : Stands W c before origins scope (f :: rest))
    (d : Declares name before declared defined) (declarable : name.Declarable) :
    Sim (some f) W (f :: rest) (Pure.pure ()) (Lexical.declare scope name.lexeme)
      fun W' _ scope' => Declared W' c declared defined origins scope' f rest name := by
  obtain ⟨isLocal, names⟩ := scope
  cases d with
  | top =>
    obtain rfl : isLocal = false := h.isLocal
    refine Sim.pure ⟨h.inside, ⟨fun _ => h.top_env, fun isLocal => by cases isLocal⟩, fun W' grow => ?_⟩
    have later := (h.grow grow).here.toScoped.mono (W'.le_bind f name.lexeme)
    exact { h with here := ⟨later, fun s g x none _ => absurd none (by simp)⟩ }
  | @inner s s' s'' outer new first second =>
    obtain rfl : isLocal = true := h.isLocal
    obtain ⟨inside, isLocal⟩ := h.here.head_local
    obtain ⟨noCell, noValue⟩ := h.here.fresh new
    have place := h.here.declare new first
    have cell : (W.place f name.lexeme).cells[W.cells.length]? = some (f, name.lexeme) := by
      simp [World.place]
    apply (newCell_sim inside isLocal noCell noValue).bind (f := fun _ => Pure.pure ())
    intro W₁ _ k grow made
    obtain ⟨rfl, rfl⟩ := made
    refine Sim.pure ⟨⟨place, h.settled.declare first declarable, h.placed.update first declarable⟩,
      ⟨fun isTop => (by cases isTop), fun _ => ⟨_, names, rfl, cell⟩⟩, fun W' more => ?_⟩
    refine ⟨(place.grow more).define ?_ second, rfl,
      (h.placed.update first declarable).update second declarable, ?_⟩
    · rw [first name.lexeme, if_pos rfl]
      rfl
    · exact h.settled.update (Binding.updates_twice first second)

/-- Both runs give a name its value in the same frame or cell. -/
theorem defineIn_sim (h : Target W scope f rest name.lexeme) (declarable : name.Declarable)
    {v v' : Value} (same : SameValue (W.bind f name.lexeme) v v') :
    Sim (some f) W (f :: rest) (Watched.lift (defineIn (f :: rest) name.lexeme v))
      (Lexical.define scope name.lexeme v') fun W' _ _ => W' = W.bind f name.lexeme := by
  obtain ⟨isLocal, names⟩ := scope
  cases isLocal with
  | false =>
    obtain ⟨rfl, rfl⟩ := h.top rfl
    exact putGlobal_sim same
  | true =>
    obtain ⟨k, others, rfl, cell⟩ := h.inner rfl
    exact put_sim cell same fun this => absurd this declarable.1

theorem define_sim (h : Target W scope f rest name.lexeme) (declarable : name.Declarable)
    {v v' : Value} (same : SameValue (W.bind f name.lexeme) v v') :
    Sim (some f) W (f :: rest) (Watched.lift (define name.lexeme v))
      (Lexical.define scope name.lexeme v') fun W' _ _ => W' = W.bind f name.lexeme := by
  intro w s related back
  have ran : Watched.lift (define name.lexeme v) w =
      Watched.lift (defineIn w.machine.env name.lexeme v) w := rfl
  rw [ran, back]
  exact defineIn_sim h declarable same w s related back

/-- The class takes the place of the value that its name has already. -/
theorem assignClass_sim (h : Target W scope f rest name.lexeme) (declarable : name.Declarable)
    (bound : (f, name.lexeme) ∈ W.bound) {k k' : Class} (same : SameClass W k k') :
    Sim (some f) W (f :: rest) (Watched.lift (assignClass name k))
      (Lexical.define scope name.lexeme (.callable (.class k')))
      fun W' _ _ => W' = W.bind f name.lexeme := by
  intro w s related back
  have owner : w.machine.store.owner? w.machine.env name.lexeme = some f := by
    unfold Store.owner? Store.binds
    rw [back, List.find?_cons, (related.frames.bound f name.lexeme).1 bound]
  have ran : Watched.lift (assignClass name k) w =
      Watched.lift (defineIn (f :: rest) name.lexeme (.callable (.class k))) w := by
    unfold Watched.lift
    rw [assignClass_run, owner]
    rfl
  rw [ran]
  have value := SameValue.callable (.class (same.mono (W.le_bind f name.lexeme)))
  exact defineIn_sim h declarable value w s related back

/-! ### Functions -/

theorem declareFunction_sim {w : Walk} {d : FunctionDecl}
    (h : Stands W c w.scopes origins scope (f :: rest))
    (sites : Binding.routineSites origins { c with body := .function }
      ((w.declare d.name).define d.name) d ⊆ W.sites)
    (clean : (Binding.routine { c with body := .function }
      ((w.declare d.name).define d.name) d).faults = [])
    (declarable : d.name.Declarable) (proper : d.Proper) :
    Sim (some f) W (f :: rest) (Watched.lift (declareFunction d)) (Lexical.declareFunction scope d)
      fun W' _ scope' =>
        Stands W' c ((w.declare d.name).define d.name).scopes origins scope' (f :: rest) := by
  have named := (Binding.routine_walked [] _ _ d).clean clean
  rw [Binding.define_faults] at named
  have declares := Binding.declares_of_clean named (Eq.refl (w.declare d.name).scopes)
  apply Sim.right (declare_sim h declares declarable)
  intro W₁ scope' grow declared
  unfold declareFunction
  rw [Watched.lift_bind]
  apply (Sim.lift freshIdentity_likewise).bind
  intro W₂ id _ _ drawn
  obtain ⟨rfl, rfl⟩ := drawn
  have stands := declared.next W₂ (Grow.refl none W₂)
  have le := grow.le.trans (W₂.le_bind f d.name.lexeme)
  have closed : FunctionOk (W₂.bind f d.name.lexeme) d false scope'.names (f :: rest) :=
    ⟨{ c with body := .function }, (w.declare d.name).define d.name, origins,
      ⟨le.covers sites, clean, stands.placed, stands.settled, proper⟩,
      stands.here.toScoped, nofun⟩
  intro v s related back
  rw [Watched.lift_get_bind, back]
  refine (define_sim declared.target declarable (.callable (.function closed))).last
    (fun W₃ _ _ _ bound => ?_) v s related back
  obtain rfl := bound
  exact Sim.pure stands

end Declarations

end Lox.Scoping
