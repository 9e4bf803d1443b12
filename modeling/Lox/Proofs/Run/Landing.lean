import Lox.Proofs.Run.Jumps
import Lox.Proofs.Run.Erasure
import Lox.Proofs.Run.Leap

/-!
# Where jumps land

A watched run and a run with leaps come to the same as long as every function that is called is
formed: then no `break` reaches the end of a call (`runAll_lands`). The log tells which functions
were called, so the condition is about the log at the end.
-/

namespace Lox.Watched

open EStateM (Result)
open Grammar (bind_of_ok bind_of_error)
open Leap (Exit Run Spot)

/-- Every function that was called is formed. -/
def Closed (log : List Event) : Prop := ∀ d env, .opened (.call d) env ∈ log → d.Formed

theorem Closed.earlier {log log' : List Event} (h : Closed log') (before : log <:+ log') :
    Closed log :=
  fun d env opened => h d env (before.subset opened)

/-- What a value comes to with leaps: a value, or a leap to a target. -/
abbrev Aim (α β : Type) := α → Except Exit β

/-- How a computation ends with leaps. -/
def landing {α β : Type} (aim : Aim α β) : Result Halt State α → Result Exit Machine β
  | .ok a w =>
    match aim a with
    | .ok b => .ok b w.machine
    | .error e => .error e w.machine
  | .error e w => .error (.halt e) w.machine

/-- The log has grown, and if it is closed, the computation with leaps came to the same. -/
structure Landed {α β : Type} (aim : Aim α β) (log : List Event) (r : Result Halt State α)
    (r' : Result Exit Machine β) : Prop where
  grows : log <:+ (after r).log
  same : Closed (after r).log → r' = landing aim r

def Lands {α β : Type} (aim : Aim α β) (x : Watch α) (y : Run β) : Prop :=
  ∀ w, Landed aim w.log (x w) (y w.machine)

/-- A value is no leap. -/
def value {α : Type} : Aim α α := .ok

/-- The target of a jump that stands at `here`. -/
def target (here : Spot) : Aim Flow Unit
  | .normal => .ok ()
  | .break => .error (.break here)
  | .return v => .error (.return here.call v)

section Rules

variable {α β γ δ : Type} {aim : Aim α β}

/-- What ends with a leap in the first part is passed on. -/
theorem Landed.bind {w : State} {x : Watch γ} {y : Run δ} {f : γ → Watch α} {g : δ → Run β}
    {first : Aim γ δ} (start : Landed first w.log (x w) (y w.machine))
    (next : ∀ c d w', x w = .ok c w' → first c = .ok d →
      Landed aim w'.log (f c w') (g d w'.machine))
    (leap : ∀ c e w', x w = .ok c w' → first c = .error e →
      Landed aim w'.log (f c w') (.error e w'.machine)) :
    Landed aim w.log ((x >>= f) w) ((y >>= g) w.machine) := by
  obtain ⟨grown, begun⟩ := start
  cases run : x w with
  | error e w' =>
    rw [run] at grown begun
    rw [bind_of_error run]
    exact ⟨grown, fun closed => bind_of_error (begun closed)⟩
  | ok c w' =>
    rw [run] at grown begun
    rw [bind_of_ok run]
    cases aimed : first c with
    | ok d =>
      obtain ⟨further, rest⟩ := next c d w' run aimed
      refine ⟨grown.trans further, fun closed => ?_⟩
      have landed := begun (closed.earlier further)
      simp only [landing, aimed] at landed
      rw [bind_of_ok landed]
      exact rest closed
    | error e =>
      obtain ⟨further, rest⟩ := leap c e w' run aimed
      refine ⟨grown.trans further, fun closed => ?_⟩
      have landed := begun (closed.earlier further)
      simp only [landing, aimed] at landed
      rw [bind_of_error landed]
      exact rest closed

namespace Lands

theorem pure {a : α} {b : β} (aimed : aim a = .ok b) :
    Lands aim (Pure.pure a) (Pure.pure b) := by
  refine fun w => ⟨List.suffix_refl _, fun _ => ?_⟩
  show _ = landing aim (.ok a w)
  simp only [landing, aimed]
  rfl

theorem plain (a : α) : Lands value (Pure.pure a) (Pure.pure a) := pure rfl

/-- A value that stands for a leap. -/
theorem leap {a : α} {e : Exit} (aimed : aim a = .error e) :
    Lands aim (Pure.pure a) (MonadExcept.throw e) := by
  refine fun w => ⟨List.suffix_refl _, fun _ => ?_⟩
  show _ = landing aim (.ok a w)
  simp only [landing, aimed]
  rfl

theorem throw (e : Halt) : Lands aim (MonadExcept.throw e) (MonadExcept.throw (.halt e)) :=
  fun _ => ⟨List.suffix_refl _, fun _ => rfl⟩

theorem lift (x : Eval α) : Lands value (Watched.lift x) (Leap.lift x) := by
  intro w
  unfold Watched.lift Leap.lift
  cases x w.machine with
  | ok a m => exact ⟨List.suffix_refl _, fun _ => rfl⟩
  | error e m => exact ⟨List.suffix_refl _, fun _ => rfl⟩

theorem bind {x : Watch γ} {y : Run γ} {f : γ → Watch α} {g : γ → Run β} (first : Lands value x y)
    (next : ∀ c, Lands aim (f c) (g c)) : Lands aim (x >>= f) (y >>= g) :=
  fun w => (first w).bind (fun c _ w' _ aimed => Except.ok.inj aimed ▸ next c w')
    fun _ _ _ _ aimed => nomatch aimed

section Jumps

variable {here : Spot}

theorem normal : Lands (target here) (Pure.pure .normal) (Pure.pure ()) := pure rfl

theorem «break» : Lands (target here) (Pure.pure .break) (MonadExcept.throw (.break here)) := leap rfl

theorem «return» (v : Value) :
    Lands (target here) (Pure.pure (.return v)) (MonadExcept.throw (.return here.call v)) := leap rfl

end Jumps

/-- To note something is no step with leaps. -/
theorem reached (id : NodeId) (name : String) {x : Watch α} {y : Run β} (h : Lands aim x y) :
    Lands aim (hooks.reached id name x) y := by
  intro w
  obtain ⟨grown, same⟩ := h { w with log := .reached id name w.machine :: w.log }
  exact ⟨(List.suffix_cons _ _).trans grown, same⟩

theorem openFrame (origin : Binding.Origin) (env : Env) :
    Lands value (Watched.openFrame origin env) (Leap.lift (childEnv env)) :=
  fun _ => ⟨List.suffix_cons _ _, fun _ => rfl⟩

theorem within {x : Watch α} {y : Run β} (env : Env) (h : Lands aim x y) :
    Lands aim (Watched.within env x) (Leap.within env y) := by
  intro w
  have inner := h { w with machine := { w.machine with env } }
  unfold Watched.within Leap.within
  dsimp only at inner ⊢
  generalize x _ = r, y _ = r' at inner ⊢
  obtain ⟨grown, same⟩ := inner
  cases r with
  | ok a w' =>
    refine ⟨grown, fun closed => ?_⟩
    rw [same closed]
    simp only [landing]
    cases aim a <;> rfl
  | error e w' =>
    refine ⟨grown, fun closed => ?_⟩
    rw [same closed]
    rfl

end Lands

end Rules

/-- Whether a loop that stands at `here` goes on. -/
def further (here : Spot) : Aim Flow Bool
  | .normal => .ok true
  | .break => .ok false
  | .return v => .error (.return here.call v)

theorem lap_lands {here : Spot} {body : Watch Flow} {body' : Run Unit}
    (h : Lands (target here) body body') : Lands (further here) body (Leap.lap here body') := by
  intro w
  obtain ⟨grown, same⟩ := h w
  refine ⟨grown, fun closed => ?_⟩
  unfold Leap.lap
  rw [same closed]
  cases body w with
  | error e w' => rfl
  | ok flow w' =>
    cases flow with
    | normal => rfl
    | «break» => simp only [landing, target, further, if_true]
    | «return» v => rfl

/-- A loop ends at its own end or with a `return` out of its call. -/
theorem loop_lands {here : Spot} {condition : Watch Value} {condition' : Run Value}
    {body : Watch Flow} {body' : Run Unit} (test : Lands value condition condition')
    (lap : Lands (target here.deeper) body body') (laps : Nat) :
    Lands (target here) (loop condition body laps) (Leap.loop here.deeper condition' body' laps) := by
  induction laps with
  | zero => exact Lands.throw _
  | succ laps ih =>
    refine test.bind fun v => Hooks.rel_ite (fun w => ?_) Lands.normal
    refine (lap_lands lap w).bind (fun flow goes w' _ aimed => ?_) fun flow e w' _ aimed => ?_
    · cases flow with
      | normal =>
        cases aimed
        exact ih w'
      | «break» =>
        cases aimed
        exact Lands.normal w'
      | «return» v => cases aimed
    · cases flow with
      | normal | «break» => cases aimed
      | «return» v =>
        cases aimed
        exact Lands.return v w'

/-- What the first statement leaps from, the second is not reached by. -/
theorem andThen_lands {here : Spot} {s t : Watch Flow} {s' t' : Run Unit}
    (first : Lands (target here) s s') (next : Lands (target here) t t') :
    Lands (target here) (hooks.andThen s t) (s' >>= fun _ => t') := fun w =>
  (first w).bind
    (fun flow _ w' _ aimed => by
      cases flow with
      | normal => exact next w'
      | «break» | «return» => cases aimed)
    fun flow e w' _ aimed => by
      cases flow with
      | normal => cases aimed
      | «break» | «return» => exact Lands.leap aimed w'

/-- Statements come to the same wherever they stand. -/
def LandsAt (s : Watch Flow) (s' : Spot → Run Unit) : Prop :=
  ∀ here, Lands (target here) s (s' here)

theorem hooks_land (number : Nat) :
    Hooks.Agree hooks (Leap.hooks number) (Lands value) LandsAt where
  pure := Lands.plain
  bind := Lands.bind
  lift := Lands.lift
  reached id name _ _ h := h.reached id name
  openFrame := Lands.openFrame
  orTrap _ _ _ := Lands.lift _
  orFault _ _ := Lands.lift _
  assignClass _ _ := Lands.lift _
  callNative _ _ _ _ := Lands.lift _
  after h next here := Lands.bind h fun a => next a here
  within env _ _ h here := Lands.within env (h here)
  normal _ := Lands.normal
  breaks _ := Lands.break
  returns v _ := Lands.return v
  andThen first next here := andThen_lands (first here) (next here)
  loop laps test lap here := loop_lands test (lap here.deeper) laps

/-- Where a jump in the body of a call ends up: a `return` at the end of the call. -/
def arrival (number : Nat) : Aim Flow Flow
  | .normal => .ok .normal
  | .break => .error (.break ⟨number, 0⟩)
  | .return v => .ok (.return v)

theorem callBody_lands {number : Nat} {body : Watch Flow} {body' : Run Unit}
    (h : Lands (target ⟨number, 0⟩) body body') :
    Lands (arrival number) body (Leap.callBody number body') := by
  intro w
  obtain ⟨grown, same⟩ := h w
  refine ⟨grown, fun closed => ?_⟩
  unfold Leap.callBody
  rw [same closed]
  cases body w with
  | error e w' => rfl
  | ok flow w' =>
    cases flow with
    | normal | «break» => rfl
    | «return» v => simp only [landing, target, arrival, if_true]

theorem lift_log {α : Type} {x : Eval α} {w w' : State} {a : α} (ended : lift x w = .ok a w') :
    w'.log = w.log := by
  unfold lift at ended
  split at ended
  · cases ended
    rfl
  · cases ended

/-- A `break` could only come out of a body that is not formed, and the log would tell. -/
theorem callFunction_lands {run : List Stmt → Watch Flow} {run' : List Stmt → Spot → Run Unit}
    {number : Nat} {closure : Closure}
    (h : LandsAt (run closure.declaration.body) (run' closure.declaration.body))
    (unbroken : closure.declaration.Formed → ∀ env w w',
      within env (run closure.declaration.body) w ≠ .ok .break w') (arguments : List Value) :
    Lands value (callFunction run closure arguments)
      ((Leap.hooks number).callFunction run' closure arguments) := by
  intro w
  refine (Lands.openFrame _ _ w).bind (fun env _ w₁ opened same => ?_)
    (fun _ _ _ _ aimed => nomatch aimed)
  cases same
  have known : Event.opened (.call closure.declaration) env ∈ w₁.log := by
    cases opened
    exact List.mem_cons_self
  refine (Lands.lift _ w₁).bind (fun _ _ w₂ bound same => ?_) (fun _ _ _ _ aimed => nomatch aimed)
  cases same
  rw [← lift_log bound] at known
  have body := callBody_lands (Lands.within env (h ⟨number, 0⟩)) w₂
  have later := body.grows
  refine body.bind (fun flow flow' w₃ ended aimed => ?_) (fun flow e w₃ ended aimed => ?_)
  · cases flow with
    | normal | «return» =>
      cases aimed
      exact Lands.lift _ w₃
    | «break» => cases aimed
  · cases flow with
    | normal | «return» => cases aimed
    | «break» =>
      rw [ended] at later
      have grown := (Lands.lift (result closure .break) w₃).grows
      refine ⟨grown, fun closed => ?_⟩
      have formed := closed _ _ (grown.subset (later.subset known))
      exact absurd ended (unbroken formed env w₂ w₃)

/-- Whatever the evaluator yields is what the watched run yields. -/
theorem Erases.yields {α : Type} {x : Watch α} {y : Eval α} {Q : α → Prop} (erases : Erases x y)
    (h : Yields y Q) {w w' : State} {a : α} (ended : x w = .ok a w') : Q a := by
  have same := erases w
  rw [ended] at same
  exact h _ _ _ same.symm

theorem invoke_lands (fuel around : Nat) :
    Hooks.CallsAgree (Lands value) (invoke fuel) (Leap.invoke around fuel) := by
  induction fuel generalizing around with
  | zero => exact fun _ _ _ => Lands.throw _
  | succ fuel ih =>
    refine (hooks_land (around + 1)).apply fun closure => callFunction_lands
      ((hooks_land _).executeAll (ih (around + 1)) fuel _) fun formed env w w' ended => ?_
    exact ((executeAll_erases (invoke_erases fuel) fuel _).within env).yields
      ((executeAll_unbroken _ fuel formed).within env) ended rfl

/-! ### Programs -/

/-- If every statement of the program goes on, no leap comes out of any. -/
theorem runAll_lands (fuel : Nat) {program : List Stmt}
    (normal : ∀ s ∈ program, Yields (Lox.execute (Lox.invoke fuel) fuel s) (· = .normal)) :
    Lands value (runAll fuel program) (Leap.runAll fuel program) := by
  induction program with
  | nil => exact Lands.plain _
  | cons s ss ih =>
    obtain ⟨first, others⟩ := List.forall_mem_cons.1 normal
    have goesOn : ∀ {w flow w'}, execute (invoke fuel) fuel s w = .ok flow w' → flow = .normal :=
      fun ended => (execute_erases (invoke_erases fuel) fuel s).yields first ended
    refine fun w => ((hooks_land 0).execute (invoke_lands fuel 0) fuel s ⟨0, 0⟩ w).bind
      (fun flow _ w' ended aimed => ih others w') (fun flow e w' ended aimed => ?_)
    obtain rfl := goesOn ended
    cases aimed

end Lox.Watched
