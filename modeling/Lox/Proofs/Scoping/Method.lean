import Lox.Proofs.Scoping.Name

/-!
# Methods in both runs

A method that is bound gets a scope for `this` in the watched run and a cell in the reference run.
-/

namespace Lox.Scoping

open Binding (Scope Site Origin distance Ready thisScope)
open Lexical (Names CellId Exec)
open Watched (Watch)

section Methods

variable {head : Option FrameId} {W : World} {env : Env} {names : Names}

theorem bindMethod_sim {c c' : Class} (same : SameClass W c c') (object : ObjectId)
    {method method' : Method} (h : SameMethod W method method') :
    Sim head W env (Watched.bindMethod c object method) (Lexical.bindMethod c' object method')
      fun W' a b => SameCallable W' a b ∧ a.arity = method.arity := by
  cases h with
  | @declared d initializer names inner ok =>
    obtain ⟨cx, w, outer, origins, this, visited, around⟩ := ok
    apply Sim.openFrame
    intro positive empty
    have here := around.openNamed (.this d) positive empty "this"
    have value := SameValue.instance (same.mono (W.le_openFrame (.this d) inner)) object
    apply (bind_sim (W := W.openFrame (.this d) inner) (Nat.lt_succ_self _)
      (Nat.ne_of_gt positive) (empty "this").1 (empty "this").2 value
      fun _ => ⟨c, object, rfl⟩).bind
    intro W₁ _ cell grow bound
    obtain ⟨rfl, rfl⟩ := bound
    apply (Sim.lift freshIdentity_likewise).bind
    intro W₂ id _ _ drawn
    obtain ⟨rfl, rfl⟩ := drawn
    have le := (W.le_openFrame (.this d) inner).trans grow.le
    have closed : FunctionOk _ d initializer _ _ :=
      ⟨cx, w, _, visited.mono le, this ▸ here.toScoped, fun _ => ⟨outer, this⟩⟩
    exact Sim.pure ⟨.function closed, rfl⟩
  | native op =>
    apply (Sim.lift freshIdentity_likewise).bind
    intro W₁ id _ _ drawn
    obtain ⟨rfl, rfl⟩ := drawn
    exact Sim.pure ⟨.native id op (some object), rfl⟩

theorem getProperty_sim {c c' : Class} (same : SameClass W c c') (object : ObjectId)
    (name : Token) :
    Sim head W env (Watched.getProperty c object name) (Lexical.getProperty c' object name)
      SameValue := by
  apply Sim.look
  intro w s related _
  have field := related.shared.field? object name.lexeme
  generalize w.machine.store.field? object name.lexeme = a at field ⊢
  generalize s.machine.store.field? object name.lexeme = b at field ⊢
  cases field with
  | some value => exact Sim.pure value
  | none =>
    apply (Sim.lift (orFail_likewise name.line _ (same.findMethod? name.lexeme))).bind
    intro W₁ method method' _ found
    obtain ⟨rfl, found⟩ := found
    exact (bindMethod_sim same object found).bind fun _ _ _ _ bound => Sim.pure (.callable bound.1)

/-- The scope of `super` is just outside the one of `this`, so that the watched run finds both by
counting and the reference run by name. -/
theorem superMethod_sim {scopes : List Scope} {origins : List Origin} {own : Option String}
    (h : Here W scopes origins names env) (ready : Ready scopes) {id : NodeId}
    {keyword method : Token} (spelled : keyword.lexeme = "super") {d : Nat}
    (outer : distance scopes "super" = some (d + 1)) (inner : distance scopes "this" = some d)
    (known : ⟨id, keyword.lexeme, false, scopes, origins, own⟩ ∈ W.sites)
    (reads : scopes.head?.bind (·.lookup keyword.lexeme) ≠ some false) :
    Sim head W env (Watched.superMethod id keyword method)
      (Lexical.superMethod names keyword method) SameValue := by
  have reaches := h.reaches ready known (fun pending => absurd pending reads) fun _ e found => by
    obtain rfl := Option.some.inj (outer.symm.trans found)
    exact inner
  apply Sim.left (reach_sim reaches)
  intro W₁ _ _ here
  subst here
  apply Sim.look
  intro w s related back
  have entry := related.logged.filed.entry _ known
  have counted : w.machine.distances[id]? = some (d + 1) := by
    rw [entry]
    show distance scopes keyword.lexeme = _
    rw [spelled, outer]
  dsimp only
  rw [counted, spelled, back]
  obtain ⟨c, f, found, frame, cell⟩ := h.present "super" (d + 1) outer
  obtain ⟨c', f', found', frame', cell'⟩ := h.present "this" d inner
  have superclass := localName_same related found frame cell
  have receiver := rel_bind (localName_same related found' frame' cell')
    fun _ _ same => same.instanceOf?
  apply Sim.left (P := fun W₂ a _ => W₂ = W₁ ∧ a = d + 1)
    (fun _ _ related back => .ok (Grow.refl _ _) related back ⟨rfl, rfl⟩)
  intro W₂ _ _ place
  obtain ⟨rfl, rfl⟩ := place
  apply (Sim.lift (orFail_likewise keyword.line _ superclass)).bind
  intro W₃ v v' _ same
  obtain ⟨rfl, same⟩ := same
  apply (Sim.lift (orFail_likewise keyword.line _ same.classOf?)).bind
  intro W₄ k k' _ parent
  obtain ⟨rfl, parent⟩ := parent
  apply (Sim.lift (orFail_likewise keyword.line _ receiver)).bind
  intro W₅ i i' _ same
  obtain ⟨c, object⟩ := i
  obtain ⟨c', object'⟩ := i'
  obtain ⟨rfl, same, rfl⟩ := same
  apply (Sim.lift (orFail_likewise method.line _ (parent.findMethod? method.lexeme))).bind
  intro W₆ m m' _ found
  obtain ⟨rfl, found⟩ := found
  exact (bindMethod_sim same object found).bind fun _ _ _ _ bound => Sim.pure (.callable bound.1)

end Methods

end Lox.Scoping
