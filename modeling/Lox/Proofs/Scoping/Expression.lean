import Lox.Proofs.Scoping.Method

/-!
# Expressions in both runs

Evaluating an expression in a place that the walk visited without a fault comes to the same in both
runs (`evaluate_sim`), given that calls do.
-/

namespace Lox.Scoping

open Binding (Scope Site Origin Context Walk Placed Ready distance expr exprs exprSites exprsSites
  expr_scopes expr_walked exprs_walked)
open Lexical (Names CellId Exec)
open Watched (Watch)

/-- Calls come to the same when the number of arguments is right. -/
def SimCall (call : Watched.Call) (call' : Lexical.Call) : Prop :=
  ∀ W env c c' vs vs' paren, SameCallable W c c' → List.Forall₂ (SameValue W) vs vs' →
    vs.length = c.arity → Sim none W env (call c vs paren) (call' c' vs' paren) SameValue

structure Inside (W : World) (c : Context) (scopes : List Scope) (origins : List Origin)
    (names : Names) (env : Env) : Prop where
  here : Here W scopes origins names env
  ready : Ready scopes
  placed : Placed c scopes

section Expressions

variable {c : Context} {scopes : List Scope} {origins : List Origin} {own : Option String}
  {names : Names} {env : Env}

theorem Inside.grow {W W' : World} (h : Inside W c scopes origins names env)
    (grow : Grow none W W') : Inside W' c scopes origins names env :=
  { h with here := h.here.grow grow }

variable {call : Watched.Call} {call' : Lexical.Call}

theorem callWith_sim {head : Option FrameId} {W : World} (calls : SimCall call call')
    {k k' : Callable} (same : SameCallable W k k') {vs vs' : List Value}
    (h : List.Forall₂ (SameValue W) vs vs') (paren : Token) :
    Sim head W env (Watched.callWith call k vs paren) (Lexical.callWith call' k' vs' paren)
      SameValue := by
  unfold Watched.callWith Lexical.callWith
  rw [← h.length_eq, ← same.arity]
  exact Sim.ite Iff.rfl (fun right => (calls W env k k' vs vs' paren same h right).weaken)
    fun _ => Sim.fail paren.line _

/-- A name that is read. In its own initializer the walk finds a fault. -/
theorem variable_sim {W : World} {w : Walk} (same : w.scopes = scopes)
    (h : Inside W c scopes origins names env) {id : NodeId} {name : Token}
    (known : ⟨id, name.lexeme, false, scopes, origins, own⟩ ∈ W.sites)
    (clean : (expr c w (.variable id name)).faults = []) (declarable : name.Declarable) :
    Sim none W env (Watched.lookUp id name) (Lexical.lookUp names name) SameValue := by
  refine lookUp_sim (h.here.reaches h.ready known (fun pending => ?_)
    fun isSuper => absurd isSuper declarable.2) rfl
  have isPending : w.isPending name.lexeme = true := by
    unfold Walk.isPending
    rw [same]
    cases scopes with
    | nil => exact absurd pending (by simp)
    | cons s outer => exact beq_iff_eq.2 pending
  have faulty := (Binding.refer_walked (w.fault name .readInOwnInitializer) id name.lexeme false
    origins own).clean (by simpa [expr, isPending] using clean)
  exact absurd faulty (by simp [Walk.fault])

theorem this_sim {W : World} (h : Inside W c scopes origins names env) {id : NodeId}
    {keyword : Token} (known : ⟨id, keyword.lexeme, false, scopes, origins, own⟩ ∈ W.sites)
    (spelled : keyword.lexeme = "this") :
    Sim none W env (Watched.lookUp id keyword) (Lexical.lookUp names keyword) SameValue := by
  refine lookUp_sim (h.here.reaches h.ready known (fun pending => ?_) fun isSuper => ?_) rfl
  · rw [spelled] at pending
    exact absurd pending h.ready.this
  · rw [spelled] at isSuper
    exact absurd isSuper (by decide)

/-- Without a fault, `super` stands in a class with a superclass. -/
theorem super_sim {W : World} {w : Walk} (h : Inside W c scopes origins names env) {id : NodeId}
    {keyword method : Token} (known : ⟨id, keyword.lexeme, false, scopes, origins, own⟩ ∈ W.sites)
    (clean : (expr c w (.super id keyword method)).faults = [])
    (spelled : keyword.lexeme = "super") :
    Sim none W env (Watched.superMethod id keyword method)
      (Lexical.superMethod names keyword method) SameValue := by
  have derived : c.family = .derived := by
    have quiet : ∀ cause, ((w.fault keyword cause).refer id keyword.lexeme).faults ≠ [] := by
      intro cause none
      have faulty := (Binding.refer_walked (w.fault keyword cause) id keyword.lexeme false
        origins own).clean none
      exact absurd faulty (by simp [Walk.fault])
    unfold expr Binding.super at clean
    cases family : c.family with
    | none => exact absurd clean (by rw [family]; exact quiet .superOutsideClass)
    | base => exact absurd clean (by rw [family]; exact quiet .superWithoutSuperclass)
    | derived => rfl
  obtain ⟨d, inner, outer⟩ := h.placed derived
  exact superMethod_sim h.here h.ready spelled outer inner known (spelled ▸ h.ready.super)

mutual

/-- Both runs of an expression come to the same. -/
theorem evaluate_sim (calls : SimCall call call') : (e : Expr) → (W : World) → (w : Walk) →
    w.scopes = scopes → Inside W c scopes origins names env →
    exprSites scopes origins own e ⊆ W.sites → (expr c w e).faults = [] → e.Proper →
    Sim none W env (Watched.evaluate call e) (Lexical.evaluate call' names e) SameValue
  | .literal l, W, _, _, _, _, _, _ => Sim.pure (sameValue_ofLiteral W l)
  | .group inner, W, w, same, h, sites, clean, proper =>
    evaluate_sim calls inner W w same h sites clean proper
  | .unary operator right, W, w, same, h, sites, clean, proper => by
    apply (evaluate_sim calls right W w same h sites clean proper).bind
    intro W₁ v v' _ value
    exact Sim.liftValue (orFault_alike operator.line (value.applyUnary operator))
  | .binary left operator right, W, w, same, h, sites, clean, proper => by
    obtain ⟨mine, others⟩ := List.append_subset.1 sites
    have first := (expr_walked c origins own (expr c w left) right).clean clean
    have later := (expr_scopes c w left).trans same
    apply (evaluate_sim calls left W w same h mine first proper.1).bind
    intro W₁ v v' grow value
    apply (evaluate_sim calls right W₁ _ later (h.grow grow) (grow.le.covers others) clean
      proper.2).bind
    intro W₂ u u' more value'
    have before := value.mono more.le
    exact Sim.liftValue (orFault_alike operator.line (before.applyBinary value' operator))
  | .logical left operator right, W, w, same, h, sites, clean, proper => by
    obtain ⟨mine, others⟩ := List.append_subset.1 sites
    have first := (expr_walked c origins own (expr c w left) right).clean clean
    have later := (expr_scopes c w left).trans same
    apply (evaluate_sim calls left W w same h mine first proper.1).bind
    intro W₁ v v' grow value
    apply Sim.ite (by rw [value.decides]) (fun _ => Sim.pure value)
    intro _
    exact evaluate_sim calls right W₁ _ later (h.grow grow) (grow.le.covers others) clean proper.2
  | .variable id name, W, w, same, h, sites, clean, proper =>
    variable_sim same h (sites List.mem_cons_self) clean proper
  | .assign id name value, W, w, same, h, sites, clean, proper => by
    obtain ⟨others, mine⟩ := List.append_subset.1 sites
    have first := (Binding.refer_walked (expr c w value) id name.lexeme true origins own).clean
      clean
    have known := mine List.mem_cons_self
    -- The node is reached before its value is evaluated, and changes its name after it.
    have reaches : ∀ W', Grow none W W' →
        Reaches W' ⟨id, name.lexeme, true, scopes, origins, own⟩ names env := fun W' grow =>
      (h.grow grow).here.reaches h.ready (grow.le.sites known) (fun _ => rfl)
        fun isSuper => absurd isSuper proper.1.2
    apply Sim.left (reach_sim (reaches W (Grow.refl none W)))
    intro W₁ _ grow _
    apply (evaluate_sim calls value W₁ w same (h.grow grow) (grow.le.covers others) first
      proper.2).bind
    intro W₂ v v' more value
    apply (assignName_sim (reaches W₂ (grow.trans more)) rfl proper.1.1 value).bind
    intro W₃ _ _ last _
    exact Sim.pure (value.mono last.le)
  | .call callee paren arguments, W, w, same, h, sites, clean, proper => by
    obtain ⟨mine, others⟩ := List.append_subset.1 sites
    have first := (exprs_walked c origins own (expr c w callee) arguments).clean clean
    have later := (expr_scopes c w callee).trans same
    apply (evaluate_sim calls callee W w same h mine first proper.1).bind
    intro W₁ v v' grow value
    cases value with
    | callable k =>
      apply (evaluateAll_sim calls arguments W₁ _ later (h.grow grow) (grow.le.covers others) clean
        proper.2).bind
      intro W₂ vs vs' more values
      exact callWith_sim calls (k.mono more.le) values paren
    | nil | bool | number | string | «instance» => exact Sim.fail paren.line _
  | .get object name, W, w, same, h, sites, clean, proper => by
    apply (evaluate_sim calls object W w same h sites clean proper).bind
    intro W₁ v v' _ value
    cases value with
    | «instance» k o => exact getProperty_sim k o name
    | nil | bool | number | string | callable => exact Sim.fail name.line _
  | .set object name value, W, w, same, h, sites, clean, proper => by
    -- The walk looks at the value first, the runs at the object.
    obtain ⟨others, mine⟩ := List.append_subset.1 sites
    have first := (expr_walked c origins own (expr c w value) object).clean clean
    have later := (expr_scopes c w value).trans same
    apply (evaluate_sim calls object W _ later h mine clean proper.1).bind
    intro W₁ u u' grow target
    cases target with
    | «instance» k o =>
      apply (evaluate_sim calls value W₁ w same (h.grow grow) (grow.le.covers others) first
        proper.2).bind
      intro W₂ v v' more value
      apply (Sim.lift (setField_alike o name.lexeme value)).bind
      intro W₃ _ _ _ done
      exact Sim.pure (done.1 ▸ value)
    | nil | bool | number | string | callable => exact Sim.fail name.line _
  | .this id keyword, W, w, same, h, sites, clean, proper =>
    this_sim h (sites List.mem_cons_self) proper
  | .super id keyword method, W, w, same, h, sites, clean, proper =>
    super_sim h (sites List.mem_cons_self) clean proper

theorem evaluateAll_sim (calls : SimCall call call') : (es : List Expr) → (W : World) →
    (w : Walk) → w.scopes = scopes → Inside W c scopes origins names env →
    exprsSites scopes origins own es ⊆ W.sites → (exprs c w es).faults = [] → Expr.ProperAll es →
    Sim none W env (Watched.evaluateAll call es) (Lexical.evaluateAll call' names es)
      fun W' => List.Forall₂ (SameValue W')
  | [], _, _, _, _, _, _, _ => Sim.pure .nil
  | e :: es, W, w, same, h, sites, clean, proper => by
    obtain ⟨mine, others⟩ := List.append_subset.1 sites
    have first := (exprs_walked c origins own (expr c w e) es).clean clean
    have later := (expr_scopes c w e).trans same
    apply (evaluate_sim calls e W w same h mine first proper.1).bind
    intro W₁ v v' grow value
    apply (evaluateAll_sim calls es W₁ _ later (h.grow grow) (grow.le.covers others) clean
      proper.2).bind
    intro W₂ vs vs' more values
    exact Sim.pure (.cons (value.mono more.le) values)

end

theorem evaluate?_sim (calls : SimCall call call') (o : Option Expr) {W : World} {w : Walk}
    (same : w.scopes = scopes) (h : Inside W c scopes origins names env)
    (sites : Binding.expr?Sites scopes origins own o ⊆ W.sites)
    (clean : (Binding.expr? c w o).faults = []) (proper : Expr.ProperOption o) :
    Sim none W env (Watched.evaluate? call o) (Lexical.evaluate? call' names o) SameValue := by
  cases o with
  | none => exact Sim.pure .nil
  | some e => exact evaluate_sim calls e W w same h sites clean proper

end Expressions

end Lox.Scoping
