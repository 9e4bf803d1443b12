import Lox.Proofs.Scoping.Class

/-!
# Statements in both runs

Running statements in a place that the walk visited without a fault comes to the same in both runs
(`execute_sim`, `executeAll_sim`), given that calls do.
-/

namespace Lox.Scoping

open Binding (Scope Site Origin Context Walk Placed Ready Settled stmt stmts stmtSites stmtsSites
  expr expr_scopes expr_walked stmt_scopes stmt_walked stmts_walked)
open Lexical (Names CellId Exec)
open Watched (Watch)

inductive SameFlow (W : World) : Flow → Flow → Prop
  | normal : SameFlow W .normal .normal
  | break : SameFlow W .break .break
  | return {v v' : Value} (same : SameValue W v v') : SameFlow W (.return v) (.return v')

/-- Loops go together if their conditions and bodies do, as long as an invariant holds. -/
theorem loop_sim {head : Option FrameId} {env : Env} {I : World → Prop} {condition : Watch Value}
    {condition' : Exec Value} {body : Watch Flow} {body' : Exec Flow}
    (test : ∀ W, I W → Sim head W env condition condition' fun W' v v' => SameValue W' v v' ∧ I W')
    (lap : ∀ W, I W → Sim head W env body body' fun W' a b => SameFlow W' a b ∧ I W')
    (laps : Nat) : ∀ W, I W → Sim head W env (Watched.loop condition body laps)
      (Lexical.loop condition' body' laps) fun W' a b => SameFlow W' a b ∧ I W' := by
  induction laps with
  | zero => exact fun W _ => Sim.throw _
  | succ laps ih =>
    intro W start
    apply (test W start).bind
    intro W₁ v v' _ outcome
    obtain ⟨same, mid⟩ := outcome
    refine Sim.ite (by rw [same.isTruthy]) (fun _ => ?_) fun _ => Sim.pure ⟨.normal, mid⟩
    apply (lap W₁ mid).bind
    intro W₂ a b _ outcome
    obtain ⟨flow, final⟩ := outcome
    cases flow with
    | normal => exact ih W₂ final
    | «break» => exact Sim.pure ⟨.normal, final⟩
    | «return» same => exact Sim.pure ⟨.return same, final⟩

section Statements

variable {call : Watched.Call} {call' : Lexical.Call}

theorem var_sim (calls : SimCall call call') {W : World} {c : Context} {w : Walk}
    {origins : List Origin} {scope : Lexical.Scope} {f : FrameId} {rest : Env}
    (h : Stands W c w.scopes origins scope (f :: rest)) {name : Token} {initializer : Option Expr}
    (sites : stmtSites origins c w (.var name initializer) ⊆ W.sites)
    (clean : (stmt c w (.var name initializer)).faults = [])
    (proper : Stmt.Proper (.var name initializer)) (laps : Nat) :
    Sim (some f) W (f :: rest) (Watched.execute call laps (.var name initializer))
      (Lexical.execute call' laps scope (.var name initializer)) fun W' a r =>
        SameFlow W' a r.1 ∧
          Stands W' c (stmt c w (.var name initializer)).scopes origins r.2 (f :: rest) := by
  have value : (Binding.expr? c (w.declare name) initializer).faults = [] := by
    rw [← Binding.define_faults _ name]
    exact clean
  have named := (Binding.expr?_walked c [] none (w.declare name) initializer).clean value
  have declares := Binding.declares_of_clean named
    (Binding.expr?_scopes c (w.declare name) initializer)
  apply Sim.right (declare_sim h declares proper.1)
  intro W₁ scope' grow declared
  refine (evaluate?_sim calls initializer rfl declared.inside (grow.le.covers sites) value
    proper.2).quiet.bind fun W₂ v v' _ evaluated => ?_
  obtain ⟨quiet, same⟩ := evaluated
  apply (define_sim (declared.grow quiet).target proper.1
    (same.mono (W₂.le_bind f name.lexeme))).bind
  intro W₃ _ _ _ bound
  obtain rfl := bound
  exact Sim.pure ⟨.normal, declared.next W₂ quiet⟩

/-- An expression was evaluated; the statement around it stands as before. -/
theorem after_sim {W : World} {c : Context} {scopes scopes' : List Scope} {origins : List Origin}
    {scope : Lexical.Scope} {f : FrameId} {rest : Env}
    (h : Stands W c scopes origins scope (f :: rest)) (same : scopes' = scopes) {a b : Flow}
    {W' : World} (quiet : Grow none W W') (flow : SameFlow W' a b) :
    Sim (some f) W' (f :: rest) (Pure.pure a) (Pure.pure (b, scope)) fun W' a r =>
      SameFlow W' a r.1 ∧ Stands W' c scopes' origins r.2 (f :: rest) := by
  subst same
  exact Sim.pure ⟨flow, h.grow quiet⟩

mutual

/-- Both runs of a statement come to the same. -/
theorem execute_sim (calls : SimCall call call') (laps : Nat) : (s : Stmt) → (c : Context) →
    (w : Walk) → (origins : List Origin) → (W : World) → (scope : Lexical.Scope) →
    (f : FrameId) → (rest : Env) → Stands W c w.scopes origins scope (f :: rest) →
    stmtSites origins c w s ⊆ W.sites → (stmt c w s).faults = [] → s.Proper →
    Sim (some f) W (f :: rest) (Watched.execute call laps s) (Lexical.execute call' laps scope s)
      fun W' a r => SameFlow W' a r.1 ∧ Stands W' c (stmt c w s).scopes origins r.2 (f :: rest)
  | .expression e, c, w, origins, W, scope, f, rest, h, sites, clean, proper => by
    apply (evaluate_sim calls e W w rfl h.inside sites clean proper).quiet.bind
    intro W₁ v v' _ outcome
    obtain ⟨quiet, _⟩ := outcome
    exact after_sim h (expr_scopes c w e) quiet .normal
  | .print e, c, w, origins, W, scope, f, rest, h, sites, clean, proper => by
    apply (evaluate_sim calls e W w rfl h.inside sites clean proper).quiet.bind
    intro W₁ v v' _ outcome
    obtain ⟨quiet, same⟩ := outcome
    rw [same.text]
    apply (Sim.lift (printLine_likewise v'.text)).bind
    intro W₂ _ _ _ outcome
    obtain ⟨here, _⟩ := outcome
    subst here
    exact after_sim h (expr_scopes c w e) quiet .normal
  | .var name initializer, _, _, _, _, _, _, _, h, sites, clean, proper =>
    var_sim calls h sites clean proper laps
  | .block body, c, w, origins, W, scope, f, rest, h, sites, clean, proper => by
    apply Sim.lookLeft
    intro v s related back
    rw [back]
    apply Sim.openFrame
    intro positive empty
    have inner : Stands (W.openFrame (.block body) (f :: rest)) c ([] :: w.scopes)
        (.block body :: origins) ⟨true, scope.names⟩ (W.size :: f :: rest) :=
      ⟨h.here.toScoped.openFrame (.block body) positive empty, rfl, h.placed.inner,
        h.settled.inner⟩
    apply (executeAll_sim calls laps body c (w.openScope []) _ _ _ _ _ inner sites clean
      proper).within.last
    intro W₁ a r grow flow
    -- All that is new is in the frame of the block, so the next statement stands where this one did.
    have quiet := (Grow.openFrame none W (.block body) (f :: rest)).fresh (Nat.le_refl _) grow
    have same := stmt_scopes c w (.block body) proper rfl
    exact Sim.pure ⟨flow, same ▸ h.grow quiet⟩
  | .ite condition thenBranch none, c, w, origins, W, scope, f, rest, h, sites, clean, proper => by
    obtain ⟨mine, others⟩ := List.append_subset.1 sites
    have first := (stmt_walked origins c (expr c w condition) thenBranch).clean clean
    have same := expr_scopes c w condition
    have kept := stmt_scopes c (expr c w condition) thenBranch proper.2.1 proper.2.2
    apply (evaluate_sim calls condition W w rfl h.inside mine first proper.1).quiet.bind
    intro W₁ v v' _ outcome
    obtain ⟨quiet, value⟩ := outcome
    refine Sim.ite (by rw [value.isTruthy]) (fun _ => ?_) fun _ =>
      after_sim h (kept.trans same) quiet .normal
    exact execute_sim calls laps thenBranch c _ origins W₁ scope f rest (same ▸ h.grow quiet)
      (quiet.le.covers others) clean proper.2.1
  | .ite condition thenBranch (some elseBranch), c, w, origins, W, scope, f, rest, h, sites, clean,
    proper => by
    obtain ⟨mine, others⟩ := List.append_subset.1 sites
    obtain ⟨thenSites, elseSites⟩ := List.append_subset.1 others
    have second := (stmt_walked origins c (stmt c (expr c w condition) thenBranch) elseBranch).clean
      clean
    have first := (stmt_walked origins c (expr c w condition) thenBranch).clean second
    have same := expr_scopes c w condition
    have kept := stmt_scopes c (expr c w condition) thenBranch proper.2.1.1 proper.2.1.2
    have keptAgain := stmt_scopes c (stmt c (expr c w condition) thenBranch) elseBranch
      proper.2.2.1 proper.2.2.2
    apply (evaluate_sim calls condition W w rfl h.inside mine first proper.1).quiet.bind
    intro W₁ v v' _ outcome
    obtain ⟨quiet, value⟩ := outcome
    refine Sim.ite (by rw [value.isTruthy]) (fun _ => ?_) fun _ => ?_
    · apply (execute_sim calls laps thenBranch c _ origins W₁ scope f rest (same ▸ h.grow quiet)
        (quiet.le.covers thenSites) second proper.2.1.1).mono
      intro W₂ a r _ outcome
      obtain ⟨flow, after⟩ := outcome
      exact ⟨flow, keptAgain.symm ▸ after⟩
    · exact execute_sim calls laps elseBranch c _ origins W₁ scope f rest
        ((kept.trans same).symm ▸ h.grow quiet) (quiet.le.covers elseSites) clean proper.2.2.1
  | .while condition body, c, w, origins, W, scope, f, rest, h, sites, clean, proper => by
    obtain ⟨mine, others⟩ := List.append_subset.1 sites
    have first := (stmt_walked origins c (expr c w condition) body).clean clean
    have same := expr_scopes c w condition
    have kept := (stmt_scopes c (expr c w condition) body proper.2.1 proper.2.2).trans same
    -- Every lap starts where the loop stands, with what earlier laps made out of sight.
    refine (loop_sim (I := fun W' => W.Le W' ∧ Stands W' c w.scopes origins scope (f :: rest))
      (fun W₁ ⟨le, stands⟩ => ?_) (fun W₁ ⟨le, stands⟩ => ?_) laps W
      ⟨World.Le.refl W, h⟩).last fun W₁ a b _ ⟨flow, _, stands⟩ =>
        Sim.pure ⟨flow, kept.symm ▸ stands⟩
    · apply (evaluate_sim calls condition W₁ w rfl stands.inside (le.covers mine) first
        proper.1).quiet.mono
      intro W₂ v v' _ outcome
      obtain ⟨quiet, value⟩ := outcome
      exact ⟨value, le.trans quiet.le, stands.grow quiet⟩
    · rw [← bind_pure_comp]
      apply (execute_sim calls laps body c _ origins W₁ scope f rest (same.symm ▸ stands)
        (le.covers others) clean proper.2.1).last
      intro W₂ a r grow outcome
      obtain ⟨flow, after⟩ := outcome
      exact Sim.pure ⟨flow, le.trans grow.le, stands.back grow.le (kept ▸ after)⟩
  | .break _, _, _, _, _, _, _, _, h, _, _, _ => Sim.pure ⟨.break, h⟩
  | .function (.mk name ps body), c, w, origins, W, scope, f, rest, h, sites, clean, proper => by
    apply (declareFunction_sim (d := .mk name ps body) h sites clean proper.1 proper.2).bind
    intro W₁ _ scope' _ stands
    have same := Binding.routine_scopes { c with body := .function }
      ((w.declare name).define name) (.mk name ps body)
    exact Sim.pure ⟨.normal, same.symm ▸ stands⟩
  | .return keyword value, c, w, origins, W, scope, f, rest, h, sites, clean, proper => by
    have same := Binding.checkReturn_scopes c w keyword value.isSome
    refine (evaluate?_sim calls value same h.inside sites clean proper).quiet.bind
      fun W₁ v v' _ ⟨quiet, result⟩ => ?_
    exact after_sim h ((Binding.expr?_scopes c _ value).trans same) quiet (.return result)
  | .class name superclass methods, c, w, origins, W, scope, f, rest, h, sites, clean, proper => by
    apply (declareClass_sim h sites clean proper).bind
    intro W₁ _ scope' _ stands
    exact Sim.pure ⟨.normal, (Binding.class_scopes c w name superclass methods).symm ▸ stands⟩

theorem executeAll_sim (calls : SimCall call call') (laps : Nat) : (ss : List Stmt) →
    (c : Context) → (w : Walk) → (origins : List Origin) → (W : World) →
    (scope : Lexical.Scope) → (f : FrameId) → (rest : Env) →
    Stands W c w.scopes origins scope (f :: rest) → stmtsSites origins c w ss ⊆ W.sites →
    (stmts c w ss).faults = [] → Stmt.ProperAll ss →
    Sim (some f) W (f :: rest) (Watched.executeAll call laps ss)
      (Lexical.executeAll call' laps scope ss) fun W' a r => SameFlow W' a r.1
  | [], _, _, _, _, _, _, _, _, _, _, _ => Sim.pure .normal
  | s :: ss, c, w, origins, W, scope, f, rest, h, sites, clean, proper => by
    obtain ⟨mine, others⟩ := List.append_subset.1 sites
    have first := (stmts_walked origins c (stmt c w s) ss).clean clean
    apply (execute_sim calls laps s c w origins W scope f rest h mine first proper.1).bind
    intro W₁ a r grow outcome
    obtain ⟨flow, stands⟩ := outcome
    obtain ⟨b, scope'⟩ := r
    have flow : SameFlow W₁ a b := flow
    cases flow with
    | normal =>
      exact executeAll_sim calls laps ss c _ origins W₁ scope' f rest stands
        (grow.le.covers others) clean proper.2
    | «break» => exact Sim.pure .break
    | «return» same => exact Sim.pure (.return same)

end

end Statements

end Lox.Scoping
