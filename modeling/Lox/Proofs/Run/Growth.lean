import Lox.Proofs.Run.Capped

/-!
# Growing worlds

A world says what is in a machine. What runs on a machine that a world fits ends, however it ends, on
one that a later world fits, which has seen all moments on the way (`Growth.Does`). The rules here
are for putting such computations together; the single steps are each world's own.
-/

namespace Lox

open EStateM (Result)
open Trace (silent)

structure Growth where
  World : Type
  Later : World → World → Prop
  Fits : World → Machine → Prop
  Sees : World → Moment → Prop
  refl : ∀ w, Later w w
  trans : ∀ {u v w}, Later u v → Later v w → Later u w
  laterSees : ∀ {v w k}, Later v w → Sees v k → Sees w k

namespace Growth

variable (K : Growth)

/-- The end of a computation and the moments before it, as a world has them. -/
structure Kept {α : Type} (w : K.World) (r : Result Halt Machine α) (moments : List Moment)
    (Q : K.World → α → Prop) : Prop where
  fits : K.Fits w (final r)
  ends : Ends r (Q w)
  sees : ∀ k ∈ moments, K.Sees w k

def Does {α : Type} (w : K.World) (x : Eval α) (t : Trace) (Q : K.World → α → Prop) : Prop :=
  ∀ m, K.Fits w m → ∃ v, K.Later w v ∧ K.Kept v (x m) (t m) Q

variable {K} {w : K.World} {α β : Type} {x : Eval α} {t : Trace} {Q : K.World → α → Prop}

/-- A step that needs no other world. -/
theorem stay (h : ∀ m, K.Fits w m → K.Fits w (final (x m)) ∧ Ends (x m) (Q w)) :
    K.Does w x silent Q := fun m fits =>
  ⟨w, K.refl w, (h m fits).1, (h m fits).2, List.forall_mem_nil _⟩

theorem pure {a : α} (good : ∀ v, K.Later w v → Q v a) : K.Does w (Pure.pure a) silent Q :=
  stay fun m fits => ⟨fits, fun b _ same => by
    cases same
    exact good w (K.refl w)⟩

theorem throw {e : Halt} : K.Does w (MonadExcept.throw e : Eval α) silent Q :=
  stay fun _ fits => ⟨fits, ends_error⟩

theorem get {f : Machine → Eval α} (h : ∀ m, K.Fits w m → K.Does w (f m) silent Q) :
    K.Does w (MonadState.get >>= f) silent Q :=
  fun m fits => h m fits m fits

theorem modify {f : Machine → Machine} {P : K.World → Unit → Prop} (done : P w ())
    (h : ∀ m, K.Fits w m → K.Fits w (f m)) : K.Does w (modify f) silent P :=
  stay fun m fits => ⟨h m fits, fun _ _ _ => done⟩

theorem orFail {o : Option α} (line : Nat) (cause : RuntimeFault) (good : ∀ a, o = some a → Q w a) :
    K.Does w (Lox.orFail line cause o) silent Q := by
  cases o with
  | none => exact throw
  | some a =>
    exact stay fun m fits => ⟨fits, fun b _ same => by
      cases same
      exact good a rfl⟩

theorem bind {f : α → Eval β} {next : α → Trace} {R : K.World → β → Prop} (first : K.Does w x t Q)
    (second : ∀ v a, K.Later w v → Q v a → K.Does v (f a) (next a) R) :
    K.Does w (x >>= f) (t.bind x next) R := by
  intro m fits
  obtain ⟨v, later, kept⟩ := first m fits
  cases ended : x m with
  | ok a n =>
    rw [ended] at kept
    obtain ⟨u, more, last⟩ := second v a later (kept.ends a n rfl) n kept.fits
    rw [Grammar.bind_of_ok ended, Trace.bind_of_ok ended]
    refine ⟨u, K.trans later more, last.fits, last.ends, fun k mem => ?_⟩
    obtain first | second := List.mem_append.1 mem
    · exact K.laterSees more (kept.sees k first)
    · exact last.sees k second
  | error e n =>
    rw [ended] at kept
    rw [Grammar.bind_of_error ended, Trace.bind_of_error ended]
    exact ⟨v, later, kept.fits, fun _ _ is => (by cases is), kept.sees⟩

theorem andThen {f : α → Eval β} {R : K.World → β → Prop} (first : K.Does w x silent Q)
    (second : ∀ v a, K.Later w v → Q v a → K.Does v (f a) silent R) :
    K.Does w (x >>= f) silent R := by
  rw [← silent.bind_silent x]
  exact bind first second

theorem mark {event : Act} (own : ∀ m, K.Fits w m → K.Sees w ⟨event, m⟩) (h : K.Does w x t Q) :
    K.Does w x (Trace.mark event t) Q := by
  intro m fits
  obtain ⟨v, later, kept⟩ := h m fits
  exact ⟨v, later, kept.fits, kept.ends,
    List.forall_mem_cons.2 ⟨K.laterSees later (own m fits), kept.sees⟩⟩

theorem within {env : Env} (enter : ∀ m, K.Fits w m → K.Fits w { m with env })
    (leave : ∀ v m n, K.Later w v → K.Fits w m → K.Fits v n → K.Fits v { n with env := m.env })
    (h : K.Does w x t Q) : K.Does w (Lox.within env x) (t.within env) Q := by
  intro m fits
  obtain ⟨v, later, kept⟩ := h { m with env } (enter m fits)
  rw [within_run]
  cases ended : x { m with env } with
  | ok a n =>
    rw [ended] at kept
    refine ⟨v, later, leave v m n later fits kept.fits, fun b _ same => ?_, kept.sees⟩
    cases same
    exact kept.ends a n rfl
  | error e n =>
    rw [ended] at kept
    exact ⟨v, later, leave v m n later fits kept.fits, ends_error, kept.sees⟩

end Growth

end Lox
