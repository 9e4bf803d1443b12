import Lox.Proofs.Scoping.Declaration

/-!
# Classes in both runs

The superclass is looked up before the class is declared, and the methods are closed over the scope
of `super`, if there is one.
-/

namespace Lox.Scoping

open Binding (Scope Site Origin Context Walk Placed Ready Settled Declares distance thisScope
  superScope classHead classOrigins classContext openClass routine routines routineSites
  routinesSites methodBody)
open Lexical (Names CellId Exec newCell)
open Watched (Watch)

section Classes

variable {call : Watched.Call} {call' : Lexical.Call} {W : World} {c : Context}
  {origins : List Origin} {env : Env} {name : Token}

/-- Without a fault, a class does not name itself as its superclass. -/
theorem superclass_other {w : Walk} {id : NodeId} {superclass : Token}
    (clean : (classHead c w name (some (.variable id superclass))).faults = []) :
    superclass.lexeme ≠ name.lexeme := by
  intro same
  have checked := (Binding.expr_walked { c with family := .derived } [] none
    (Binding.checkSuperclass ((w.declare name).define name) name (.variable id superclass))
    (.variable id superclass)).clean clean
  simp [Binding.checkSuperclass, same, Walk.fault] at checked

theorem evaluateSuperclass_sim {scope : Lexical.Scope} {before declared defined : List Scope}
    (h : Stands W c before origins scope env) (d : Declares name before declared defined)
    {w : Walk} {superclass : Option Expr} (shape : IsSuperclass superclass)
    (sites : Binding.expr?Sites defined origins (some name.lexeme) superclass ⊆ W.sites)
    (clean : (classHead c w name superclass).faults = []) :
    Sim none W env (Watched.evaluateSuperclass call name superclass)
      (Lexical.evaluateSuperclass call' scope.names name superclass)
      fun W' a b => Option.Rel (SameClass W') a b ∧ a.isSome = superclass.isSome := by
  cases superclass with
  | none => exact Sim.pure ⟨.none, rfl⟩
  | some e =>
    obtain ⟨id, parent, rfl, declarable⟩ := shape
    have known := sites List.mem_cons_self
    have reaches : Reaches W ⟨id, parent.lexeme, false, defined, origins, some name.lexeme⟩
        scope.names env := by
      cases d with
      | top =>
        exact h.here.reaches h.settled.ready known (fun pending => absurd pending (by simp))
          fun isSuper => absurd isSuper declarable.2
      | inner _ first second =>
        exact h.here.reaches_superclass h.settled (Binding.updates_twice first second)
          (superclass_other clean) declarable.2 known
    apply (lookUp_sim reaches rfl).bind
    intro W₁ v v' _ value
    apply (Sim.lift (orFail_likewise _ _ value.classOf?)).map
    intro W₂ k k' _ found
    exact ⟨.some (found.1 ▸ found.2), rfl⟩

/-- The scopes that the methods of a class are closed over. -/
theorem methodEnv_sim {scopes : List Scope} {names : Names} (h : Scoped W scopes origins names env)
    {a b : Option Class} (same : Option.Rel (SameClass W) a b) (methods : List FunctionDecl) :
    Sim none W env (Watched.methodEnv methods a) (Lexical.methodNames names b)
      fun W' inner names' => Option.Rel (SameClass W') a b ∧
        Scoped W' (if a.isSome then superScope :: scopes else scopes)
          (if a.isSome then .super methods :: origins else origins) names' inner := by
  apply Sim.lookLeft
  intro w s related back
  rw [back]
  cases same with
  | none => exact Sim.pure ⟨.none, h⟩
  | @some k k' same =>
    apply Sim.openFrame
    intro positive empty
    have here := h.openNamed (.super methods) positive empty "super"
    have value := SameValue.callable (.class (same.mono (W.le_openFrame (.super methods) env)))
    apply (bind_sim (W := W.openFrame (.super methods) env) (Nat.lt_succ_self _)
      (Nat.ne_of_gt positive) (empty "super").1 (empty "super").2 value
      fun this => absurd this (by decide)).bind
    intro W₁ _ cell grow bound
    obtain ⟨rfl, rfl⟩ := bound
    have le := (W.le_openFrame (.super methods) env).trans grow.le
    exact Sim.pure ⟨.some (same.mono le), here.toScoped⟩

/-- The tables of the methods, before they are put in order. -/
theorem methods_same {outer : List Scope} {names : Names} (h : Scoped W outer origins names env) :
    (ds : List FunctionDecl) → (c : Context) → (w : Walk) → w.scopes = thisScope :: outer →
    Placed c w.scopes → Settled w.scopes → routinesSites origins c w ds ⊆ W.sites →
    (routines c w ds).faults = [] → FunctionDecl.ProperAll ds →
    SameMethods W
      (ds.map fun d =>
        (d.name.lexeme, Method.declared ⟨d, env, d.name.lexeme == initializerName⟩))
      (ds.map fun d =>
        (d.name.lexeme, Method.declared ⟨d, names, d.name.lexeme == initializerName⟩))
  | [], _, _, _, _, _, _, _, _ => .nil
  | .mk name ps body :: ds, c, w, this, placed, settled, sites, clean, proper => by
    obtain ⟨mine, others⟩ := List.append_subset.1 sites
    have first := (Binding.routines_walked origins c _ ds).clean clean
    have later := Binding.routine_scopes { c with body := methodBody name } w (.mk name ps body)
    have rest := methods_same h ds c _ (later.trans this) (later ▸ placed) (later ▸ settled) others
      clean proper.2
    refine .cons ⟨rfl, .declared ?_⟩ rest
    exact ⟨{ c with body := methodBody name }, w, outer, origins, this,
      ⟨mine, first, placed, settled, proper.1⟩, h⟩

/-- Without a fault in a class there is none in its head and none in its methods. -/
theorem class_clean {w : Walk} {superclass : Option Expr} {methods : List FunctionDecl}
    (clean : (Binding.stmt c w (.class name superclass methods)).faults = []) :
    (w.declare name).faults = [] ∧ (classHead c w name superclass).faults = [] ∧
      (routines (classContext c superclass)
        (openClass (classHead c w name superclass) superclass.isSome) methods).faults = [] := by
  have closed := Binding.closeClass_silent (routines (classContext c superclass)
    (openClass (classHead c w name superclass) superclass.isSome) methods) superclass.isSome
  have body := closed.1.symm.trans clean
  have opened := (Binding.routines_walked [] _ _ methods).clean body
  rw [(Binding.openClass_silent _ _).1] at opened
  have named := (Binding.classHead_visited c [] w name superclass).clean opened
  rw [Binding.define_faults] at named
  exact ⟨named, opened, body⟩

theorem declareClass_sim {w : Walk} {scope : Lexical.Scope} {f : FrameId} {rest : Env}
    (h : Stands W c w.scopes origins scope (f :: rest)) {superclass : Option Expr}
    {methods : List FunctionDecl}
    (sites : Binding.stmtSites origins c w (.class name superclass methods) ⊆ W.sites)
    (clean : (Binding.stmt c w (.class name superclass methods)).faults = [])
    (proper : Stmt.Proper (.class name superclass methods)) :
    Sim (some f) W (f :: rest) (Watched.declareClass call name superclass methods)
      (Lexical.declareClass call' scope name superclass methods) fun W' _ scope' =>
        Stands W' c ((w.declare name).define name).scopes origins scope' (f :: rest) := by
  obtain ⟨declarable, shape, methodsProper⟩ := proper
  obtain ⟨named, head, body⟩ := class_clean clean
  obtain ⟨superclassSites, methodSites⟩ := List.append_subset.1 sites
  have d := Binding.declares_of_clean named (Eq.refl (w.declare name).scopes)
  apply (evaluateSuperclass_sim h d shape superclassSites head).quiet.bind
  intro W₁ parent parent' _ found
  obtain ⟨first, classes, derived⟩ := found
  apply Sim.right (declare_sim (h.grow first) d declarable)
  intro W₂ scope' second declared
  apply (define_sim declared.target declarable .nil).bind
  intro W₃ _ _ third bound
  obtain rfl := bound
  have stands := declared.next W₂ (Grow.refl none W₂)
  have here := rel_mono classes fun _ _ same => same.mono (second.le.trans third.le)
  -- From here on the name is bound, to nil as yet, so that the methods can be closed over it.
  apply (methodEnv_sim stands.here.toScoped here methods).quiet.bind
  intro W₄ inner names _ closed
  obtain ⟨fourth, parents, around⟩ := closed
  apply (Sim.lift freshIdentity_likewise).bind
  intro W₅ id _ _ drawn
  obtain ⟨rfl, rfl⟩ := drawn
  have bound : (f, name.lexeme) ∈ W₅.bound := fourth.le.bound List.mem_cons_self
  have target := declared.target.mono (third.le.trans fourth.le)
  have le := ((first.le.trans second.le).trans third.le).trans fourth.le
  rw [derived] at around
  have scopes := Binding.openClass_scopes c w name superclass
  have placed : Placed (classContext c superclass)
      (openClass (classHead c w name superclass) superclass.isSome).scopes := by
    rw [scopes]
    cases superclass with
    | none => exact fun family => absurd family (by simp [classContext])
    | some e => exact Binding.placed_class _ _
  have settled : Settled (openClass (classHead c w name superclass) superclass.isSome).scopes := by
    rw [scopes]
    cases superclass with
    | none => exact Binding.settled_this stands.settled
    | some e => exact Binding.settled_this (Binding.settled_super stands.settled)
  have methodTables : SameMethods W₅ (methodTable inner methods) (methodTable names methods) :=
    List.rel_reverse (methods_same around methods _ _ scopes placed settled
      (le.covers methodSites) body methodsProper)
  have made : SameClass W₅ ⟨id, name.lexeme, parent, methodTable inner methods⟩
      ⟨id, name.lexeme, parent', methodTable names methods⟩ := by
    cases parents with
    | none => exact .base methodTables
    | some same => exact .derived same methodTables
  apply (assignClass_sim target declarable bound made).last
  intro W₆ _ _ _ assigned
  obtain rfl := assigned
  exact Sim.pure ((stands.grow fourth).grow (grow_bound bound))

end Classes

end Lox.Scoping
