import Lox.Proofs.Scoping.Alike

/-!
# Simulation

What it means that a watched computation and a reference computation go together, and the rules by
which it is shown: one for each way of putting computations together and one for each step.
-/

namespace Lox.Scoping

open Binding (Scope Site Origin Updates)
open Lexical (Names CellId Exec newCell)
open Watched (Watch)
open EStateM (Result)

/-- Both computations ended in the same way, in a later world with nothing new in the old frames
but `head`, and with the former scopes in reach. -/
inductive Agree {α β : Type} (head : Option FrameId) (W : World) (env : Env)
    (P : World → α → β → Prop) :
    Result Halt Watched.State α → Result Halt Lexical.State β → Prop
  | ok {W' : World} {a : α} {b : β} {w : Watched.State} {s : Lexical.State}
      (grow : Grow head W W') (related : Related W' w s) (back : w.machine.env = env)
      (holds : P W' a b) : Agree head W env P (.ok a w) (.ok b s)
  | error {W' : World} {e : Halt} {w : Watched.State} {s : Lexical.State}
      (grow : Grow head W W') (related : Related W' w s) (back : w.machine.env = env) :
      Agree head W env P (.error e w) (.error e s)

/-- The computations agree wherever they start from related states. -/
def Sim {α β : Type} (head : Option FrameId) (W : World) (env : Env) (x : Watch α) (y : Exec β)
    (P : World → α → β → Prop) : Prop :=
  ∀ w s, Related W w s → w.machine.env = env → Agree head W env P (x w) (y s)

namespace Agree

variable {α β : Type} {head : Option FrameId} {W : World} {env : Env}
  {P : World → α → β → Prop} {x : Result Halt Watched.State α} {y : Result Halt Lexical.State β}

theorem mono (h : Agree head W env P x y) {Q : World → α → β → Prop}
    (imp : ∀ W' a b, Grow head W W' → P W' a b → Q W' a b) : Agree head W env Q x y := by
  cases h with
  | ok grow related back holds => exact .ok grow related back (imp _ _ _ grow holds)
  | error grow related back => exact .error grow related back

theorem weaken (h : Agree none W env P x y) : Agree head W env P x y := by
  cases h with
  | ok grow related back holds => exact .ok grow.weaken related back holds
  | error grow related back => exact .error grow.weaken related back

theorem after {W₀ : World} (grow : Grow head W₀ W) (h : Agree head W env P x y) :
    Agree head W₀ env P x y := by
  cases h with
  | ok more related back holds => exact .ok (grow.trans more) related back holds
  | error more related back => exact .error (grow.trans more) related back

end Agree

namespace Sim

variable {α β γ δ : Type} {head : Option FrameId} {W : World} {env : Env}
  {P : World → α → β → Prop} {Q : World → γ → δ → Prop}

theorem pure {a : α} {b : β} (holds : P W a b) : Sim head W env (Pure.pure a) (Pure.pure b) P :=
  fun _ _ related back => .ok (Grow.refl head W) related back holds

theorem throw (e : Halt) : Sim head W env (MonadExcept.throw e) (MonadExcept.throw e) P :=
  fun _ _ related back => .error (Grow.refl head W) related back

theorem bind {x : Watch α} {y : Exec β} {f : α → Watch γ} {g : β → Exec δ}
    (first : Sim head W env x y P)
    (next : ∀ W' a b, Grow head W W' → P W' a b → Sim head W' env (f a) (g b) Q) :
    Sim head W env (x >>= f) (y >>= g) Q := by
  intro w s related back
  have start := first w s related back
  show Agree head W env Q (EStateM.bind x f w) (EStateM.bind y g s)
  unfold EStateM.bind
  generalize x w = r at start ⊢
  generalize y s = t at start ⊢
  cases start with
  | ok grow related back holds => exact (next _ _ _ grow holds _ _ related back).after grow
  | error grow related back => exact .error grow related back

/-- Only the watched run does something first. -/
theorem left {x : Watch α} {f : α → Watch γ} {y : Exec δ} {P : World → α → Unit → Prop}
    (first : Sim head W env x (Pure.pure ()) P)
    (next : ∀ W' a, Grow head W W' → P W' a () → Sim head W' env (f a) y Q) :
    Sim head W env (x >>= f) y Q :=
  bind (g := fun _ => y) first fun W' a _ grow holds => next W' a grow holds

/-- Only the reference run does something first. -/
theorem right {x : Watch γ} {y : Exec β} {g : β → Exec δ} {P : World → Unit → β → Prop}
    (first : Sim head W env (Pure.pure ()) y P)
    (next : ∀ W' b, Grow head W W' → P W' () b → Sim head W' env x (g b) Q) :
    Sim head W env x (y >>= g) Q :=
  bind (f := fun _ => x) first fun W' _ b grow holds => next W' b grow holds

/-- Only the reference run does something last. -/
theorem last {x : Watch γ} {y : Exec β} {g : β → Exec δ} {P : World → γ → β → Prop}
    (first : Sim head W env x y P)
    (next : ∀ W' a b, Grow head W W' → P W' a b → Sim head W' env (Pure.pure a) (g b) Q) :
    Sim head W env x (y >>= g) Q := by
  rw [← bind_pure x]
  exact bind first next

theorem mono {x : Watch α} {y : Exec β} {Q : World → α → β → Prop} (h : Sim head W env x y P)
    (imp : ∀ W' a b, Grow head W W' → P W' a b → Q W' a b) : Sim head W env x y Q :=
  fun w s related back => (h w s related back).mono imp

theorem weaken {x : Watch α} {y : Exec β} (h : Sim none W env x y P) : Sim head W env x y P :=
  fun w s related back => (h w s related back).weaken

theorem quiet {x : Watch α} {y : Exec β} (h : Sim none W env x y P) :
    Sim head W env x y fun W' a b => Grow none W W' ∧ P W' a b :=
  (h.mono fun _ _ _ grow holds => ⟨grow, holds⟩).weaken

theorem map {x : Watch α} {y : Exec β} {f : α → γ} {g : β → δ} (h : Sim head W env x y P)
    (imp : ∀ W' a b, Grow head W W' → P W' a b → Q W' (f a) (g b)) :
    Sim head W env (f <$> x) (g <$> y) Q := by
  rw [← bind_pure_comp, ← bind_pure_comp]
  exact bind h fun W' a b grow holds => pure (imp W' a b grow holds)

theorem ite {c c' : Prop} [Decidable c] [Decidable c'] {x x' : Watch α} {y y' : Exec β}
    (same : c ↔ c') (h : c → Sim head W env x y P) (k : ¬c → Sim head W env x' y' P) :
    Sim head W env (if c then x else x') (if c' then y else y') P := by
  by_cases holds : c
  · rw [if_pos holds, if_pos (same.1 holds)]
    exact h holds
  · rw [if_neg holds, if_neg fun holds' => holds (same.2 holds')]
    exact k holds

theorem look {f : Machine → Watch α} {g : Lexical.State → Exec β}
    (h : ∀ w s, Related W w s → w.machine.env = env → Sim head W env (f w.machine) (g s) P) :
    Sim head W env (Watched.lift MonadState.get >>= f) (MonadState.get >>= g) P :=
  fun w s related back => h w s related back w s related back

theorem lookLeft {f : Machine → Watch α} {y : Exec β}
    (h : ∀ w s, Related W w s → w.machine.env = env → Sim head W env (f w.machine) y P) :
    Sim head W env (Watched.lift MonadState.get >>= f) y P :=
  fun w s related back => h w s related back w s related back

theorem within {x : Watch α} {y : Exec β} {inner : Env} (h : Sim head W inner x y P) :
    Sim head W env (Watched.within inner x) y P := by
  intro w s related back
  have logged : Logged W { w with machine := { w.machine with env := inner } } :=
    related.logged.keep (World.Le.refl W) rfl rfl rfl rfl
  have done := h { w with machine := { w.machine with env := inner } } s
    ⟨{ related.shared with }, related.frames.keep rfl rfl rfl, logged⟩ rfl
  unfold Watched.within
  dsimp only
  generalize x _ = r at done ⊢
  generalize y s = t at done ⊢
  cases done with
  | ok grow related _ holds =>
    refine .ok grow ⟨{ related.shared with }, related.frames.keep rfl rfl rfl, ?_⟩ back holds
    exact related.logged.keep (World.Le.refl _) rfl rfl rfl rfl
  | error grow related _ =>
    refine .error grow ⟨{ related.shared with }, related.frames.keep rfl rfl rfl, ?_⟩ back
    exact related.logged.keep (World.Le.refl _) rfl rfl rfl rfl

/-- A step that does the same to both machines. -/
theorem lift {x : Eval α} {y : Eval β} {P : α → β → Prop} (h : Likewise W.likeness x y P) :
    Sim head W env (Watched.lift x) (Lexical.lift y) fun W' a b => W' = W ∧ P a b := by
  intro w s related back
  have done := h w.machine s.machine (shared_iff.1 related.shared)
  unfold Watched.lift Lexical.lift
  generalize x w.machine = r at done ⊢
  generalize y s.machine = t at done ⊢
  cases done with
  | ok shared aside aside' holds =>
    refine .ok (Grow.refl head W)
      ⟨shared_iff.2 shared, related.frames.keep aside.frames aside'.frames rfl, ?_⟩
      (aside.env.trans back) ⟨rfl, holds⟩
    exact related.logged.keep (World.Le.refl _) rfl rfl aside.distances aside.nextNode
  | error shared aside aside' =>
    refine .error (Grow.refl head W)
      ⟨shared_iff.2 shared, related.frames.keep aside.frames aside'.frames rfl, ?_⟩
      (aside.env.trans back)
    exact related.logged.keep (World.Le.refl _) rfl rfl aside.distances aside.nextNode

theorem liftValue {x y : Eval Value} (h : Likewise W.likeness x y (SameValue W)) :
    Sim head W env (Watched.lift x) (Lexical.lift y) SameValue := by
  apply (lift h).mono
  intro W' a b _ ⟨here, same⟩
  exact here ▸ same

theorem fail (line : Nat) (cause : RuntimeFault) :
    Sim head W env (Watched.lift (fail line cause)) (Lexical.lift (Lox.fail line cause)) P :=
  fun _ _ related back => .error (Grow.refl head W) related back

end Sim

end Lox.Scoping
