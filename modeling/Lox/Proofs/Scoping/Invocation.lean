import Lox.Proofs.Scoping.Statement

/-!
# Calls in both runs

A call opens one scope for the parameters and the body, inside the one that the function was closed
over. With so much fuel, calls come to the same in both runs (`invoke_sim`).
-/

namespace Lox.Scoping

open Binding (Scope Site Origin Context Walk Declares stmts stmtsSites params thisScope)
open Lexical (Names CellId Exec)
open Watched (Watch)

/-- Bodies come to the same wherever the walk visited them without a fault. -/
def SimRun (run : List Stmt → Watch Flow)
    (run' : Lexical.Scope → List Stmt → Exec (Flow × Lexical.Scope)) : Prop :=
  ∀ body c w origins W scope f rest, Stands W c w.scopes origins scope (f :: rest) →
    stmtsSites origins c w body ⊆ W.sites → (stmts c w body).faults = [] → Stmt.ProperAll body →
    Sim (some f) W (f :: rest) (run body) (run' scope body) fun W' a r => SameFlow W' a r.1

section Calls

variable {W : World} {c : Context} {origins : List Origin} {names : Names} {env rest : Env}
  {f : FrameId}

/-- Every parameter gets its argument, in the frame of the call and in a cell of its own. -/
theorem bindParameters_sim : (ps : List Token) → (vs vs' : List Value) → (W : World) →
    (w : Walk) → (names : Names) → List.Forall₂ (SameValue W) vs vs' → vs.length = ps.length →
    Stands W c w.scopes origins ⟨true, names⟩ (f :: rest) → (params w ps).faults = [] →
    (∀ p ∈ ps, p.Declarable) →
    Sim (some f) W env (Watched.lift (bindParameters (f :: rest) ps vs))
      (Lexical.bindParameters names ps vs') fun W' _ names' =>
        Stands W' c (params w ps).scopes origins ⟨true, names'⟩ (f :: rest)
  | [], [], _, _, _, _, .nil, _, h, _, _ => Sim.pure h
  | p :: ps, v :: vs, v' :: vs', W, w, names, .cons same values, length, h, clean, proper => by
    have named : ((w.declare p).define p).faults = [] :=
      List.prefix_nil.1 (clean ▸ (Binding.params_silent ((w.declare p).define p) ps).1)
    rw [Binding.define_faults] at named
    have declarable := proper p List.mem_cons_self
    have declares := Binding.declares_of_clean named (Eq.refl (w.declare p).scopes)
    generalize w.scopes = before at h declares
    generalize (w.declare p).scopes = declared at declares
    generalize defined : ((w.declare p).define p).scopes = after at declares
    cases declares with
    | top =>
      -- Parameters are never at top level.
      exact absurd h.isLocal (by simp)
    | @inner s s' s'' outer new first second =>
      obtain ⟨inside, isLocal⟩ := h.here.head_local
      obtain ⟨noCell, noValue⟩ := h.here.fresh new
      unfold bindParameters Lexical.bindParameters
      rw [Watched.lift_bind]
      apply (bind_sim inside isLocal noCell noValue same fun this =>
        absurd this declarable.1).bind
      intro W₁ _ k grow bound
      obtain ⟨rfl, rfl⟩ := bound
      have update := Binding.updates_twice first second
      have stands : Stands ((W.place f p.lexeme).bind f p.lexeme) c
          ((w.declare p).define p).scopes origins ⟨true, W.cells.length :: names⟩ (f :: rest) := by
        rw [defined]
        exact ⟨h.here.declare_define new first second, rfl, h.placed.update update declarable,
          h.settled.update update⟩
      exact bindParameters_sim ps vs vs' _ ((w.declare p).define p) _
        (values.imp fun _ _ same => same.mono grow.le) (Nat.succ.inj length) stands clean
        fun q mem => proper q (List.mem_cons_of_mem _ mem)

/-- An initializer yields the receiver, which its environment binds. -/
theorem result_sim {head : Option FrameId} {d : FunctionDecl} {initializer : Bool}
    (ok : FunctionOk W d initializer names rest) {a b : Flow} (flow : SameFlow W a b) :
    Sim head W env (Watched.lift (result ⟨d, rest, initializer⟩ a))
      (Lexical.result ⟨d, names, initializer⟩ b) SameValue := by
  cases initializer with
  | false =>
    cases flow with
    | normal => exact Sim.pure .nil
    | «break» => exact Sim.pure .nil
    | «return» same => exact Sim.pure same
  | true =>
    obtain ⟨c, w, origins, visited, around, this⟩ := ok
    obtain ⟨outer, this⟩ := this rfl
    intro w s related back
    obtain ⟨k, g, found, frame, cell⟩ := around.present "this" 0 (this ▸ rfl)
    have receiver := localName_same related found frame cell
    refine .ok (Grow.refl head W) related back ?_
    generalize w.machine.store.getAt? rest 0 "this" = u at receiver
    generalize s.get? names "this" = u' at receiver
    cases receiver with
    | none => exact .nil
    | some same => exact same

variable {run : List Stmt → Watch Flow}
  {run' : Lexical.Scope → List Stmt → Exec (Flow × Lexical.Scope)}

theorem callFunction_sim (runs : SimRun run run') {d : FunctionDecl} {initializer : Bool}
    {inner : Env} (ok : FunctionOk W d initializer names inner) {vs vs' : List Value}
    (values : List.Forall₂ (SameValue W) vs vs') (length : vs.length = d.arity) :
    Sim none W env (Watched.callFunction run ⟨d, inner, initializer⟩ vs)
      (Lexical.callFunction run' ⟨d, names, initializer⟩ vs') SameValue := by
  obtain ⟨c, w, origins, visited, around, this⟩ := ok
  obtain ⟨name, ps, body⟩ := d
  have entered := (Binding.stmts_walked [] c (params (w.openScope []) ps) body).clean visited.clean
  apply Sim.openFrame
  intro positive empty
  have start := W.le_openFrame (.call (.mk name ps body)) inner
  have stands : Stands (W.openFrame (.call (.mk name ps body)) inner) c ([] :: w.scopes)
      (.call (.mk name ps body) :: origins) ⟨true, names⟩ (W.size :: inner) :=
    ⟨around.openFrame _ positive empty, rfl, visited.placed.inner, visited.settled.inner⟩
  apply (bindParameters_sim ps vs vs' _ (w.openScope []) names
    (values.imp fun _ _ same => same.mono start) length stands entered visited.proper.1).bind
  intro W₁ _ names' first bound
  apply (runs body c _ _ W₁ _ _ _ bound ((start.trans first.le).covers visited.sites)
    visited.clean visited.proper.2).within.bind
  intro W₂ a r second flow
  obtain ⟨b, scope⟩ := r
  have ok : FunctionOk W (.mk name ps body) initializer names inner :=
    ⟨c, w, origins, visited, around, this⟩
  exact result_sim (ok.mono ((start.trans first.le).trans second.le)) flow

theorem callMethod_sim (runs : SimRun run run') {k k' : Class} (same : SameClass W k k')
    (object : ObjectId) {method method' : Method} (h : SameMethod W method method')
    {vs vs' : List Value} (values : List.Forall₂ (SameValue W) vs vs')
    (length : vs.length = method.arity) (paren : Token) :
    Sim none W env (Watched.callMethod run k object method vs paren)
      (Lexical.callMethod run' k' object method' vs' paren) SameValue := by
  apply (bindMethod_sim same object h).bind
  intro W₁ a b grow outcome
  obtain ⟨bound, arity⟩ := outcome
  have later := values.imp fun _ _ same => SameValue.mono same grow.le
  cases bound with
  | function ok => exact callFunction_sim runs ok later (length.trans arity.symm)
  | native id op receiver => exact Sim.liftValue (callNative_alike op receiver later paren)
  | «class» same => exact Sim.pure .nil

theorem instantiate_sim (runs : SimRun run run') {k k' : Class} (same : SameClass W k k')
    {vs vs' : List Value} (values : List.Forall₂ (SameValue W) vs vs')
    (length : vs.length = k.arity) (paren : Token) :
    Sim none W env (Watched.instantiate run k vs paren)
      (Lexical.instantiate run' k' vs' paren) SameValue := by
  apply (Sim.lift allocate_likewise).bind
  intro W₁ object _ _ outcome
  obtain ⟨here, mine⟩ := outcome
  subst here mine
  have found := same.findMethod? initializerName
  unfold Class.arity at length
  generalize k.findMethod? initializerName = a at found length ⊢
  generalize k'.findMethod? initializerName = b at found ⊢
  cases found with
  | none => exact Sim.pure (.instance same object)
  | some method =>
    apply (callMethod_sim runs same object method values length paren).bind
    intro W₂ _ _ grow _
    exact Sim.pure (.instance (same.mono grow.le) object)

theorem apply_sim (runs : SimRun run run') : SimCall (Watched.apply run) (Lexical.apply run') := by
  intro W env k k' vs vs' paren same values length
  cases same with
  | function ok => exact callFunction_sim runs ok values length
  | native id op receiver => exact Sim.liftValue (callNative_alike op receiver values paren)
  | «class» same => exact instantiate_sim runs same values length paren

end Calls

theorem invoke_sim (fuel : Nat) : SimCall (Watched.invoke fuel) (Lexical.invoke fuel) := by
  induction fuel with
  | zero => exact fun W env k k' vs vs' paren _ _ _ => Sim.throw _
  | succ fuel ih =>
    apply apply_sim
    intro body c w origins W scope f rest h sites clean proper
    exact executeAll_sim ih fuel body c w origins W scope f rest h sites clean proper

end Lox.Scoping
