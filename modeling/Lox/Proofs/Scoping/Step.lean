import Lox.Proofs.Scoping.Simulation

/-!
# Steps that change the world

A scope that is opened, a cell that is made and a name that gets a value.
-/

namespace Lox.Scoping

open Binding (Scope Site Origin Updates updates_cons thisScope superScope)
open Lexical (Names CellId Exec newCell)
open Watched (Watch)

section Steps

variable {α β : Type} {head : Option FrameId} {W : World} {env : Env}
  {P : World → α → β → Prop}

/-! ### Scopes -/

theorem Related.openFrame {w : Watched.State} {s : Lexical.State} (h : Related W w s)
    (origin : Origin) (inner : Env) :
    Related (W.openFrame origin inner)
      ⟨{ w.machine with store := (w.machine.store.child inner).2 },
        .opened origin (W.size :: inner) :: w.log⟩ s where
  shared := { h.shared.mono (W.le_openFrame origin inner) with }
  frames := h.frames.openFrame origin inner
  logged := h.logged.openFrame origin inner rfl rfl

/-- What happens in a scope that is opened first does not concern the old frames. -/
theorem Sim.openFrame {origin : Origin} {inner : Env} {f : Env → Watch α} {y : Exec β}
    (h : globalFrame < W.size → (∀ x, (W.size, x) ∉ W.cells ∧ (W.size, x) ∉ W.bound) →
      Sim (some W.size) (W.openFrame origin inner) env (f (W.size :: inner)) y P) :
    Sim head W env (Watched.openFrame origin inner >>= f) y P := by
  intro w s related back
  have opened := related.openFrame origin inner
  have done := h related.frames.positive related.frames.empty _ s opened back
  have ran : (Watched.openFrame origin inner >>= f) w = f (W.size :: inner)
      ⟨{ w.machine with store := (w.machine.store.child inner).2 },
        .opened origin (W.size :: inner) :: w.log⟩ := by
    rw [← related.frames.size]
    rfl
  rw [ran]
  have start := Grow.openFrame head W origin inner
  generalize f _ _ = r at done ⊢
  generalize y s = t at done ⊢
  cases done with
  | ok grow related back holds => exact .ok (start.fresh (Nat.le_refl _) grow) related back holds
  | error grow related back => exact .error (start.fresh (Nat.le_refl _) grow) related back

/-! ### Cells -/

variable {f : FrameId} {name : String}

theorem newCell_sim (inside : f < W.size) (isLocal : f ≠ globalFrame) (new : (f, name) ∉ W.cells)
    (unset : (f, name) ∉ W.bound) :
    Sim (some f) W env (Pure.pure ()) (newCell name none)
      fun W' _ c => W' = W.place f name ∧ c = W.cells.length := by
  intro w s related back
  refine .ok (Grow.place W f name) ⟨{ related.shared.mono (W.le_place f name) with },
    related.frames.place inside isLocal new unset, ?_⟩ back ⟨rfl, related.frames.count⟩
  exact related.logged.keep (W.le_place f name) rfl rfl rfl rfl

theorem Related.put {w : Watched.State} {s : Lexical.State} (h : Related W w s) {c : CellId}
    {v v' : Value} (cell : W.cells[c]? = some (f, name)) (same : SameValue (W.bind f name) v v')
    (receiver : name = "this" → ∃ d o, v = .instance d o) :
    Related (W.bind f name) { w with machine := w.machine.mapStore (·.put f name v) }
      (s.fill c v') where
  shared := { h.shared.mono (W.le_bind f name) with }
  frames := h.frames.put cell same receiver
  logged := h.logged.keep (W.le_bind f name) rfl rfl rfl rfl

theorem put_sim {c : CellId} {v v' : Value} {inner : Env} (cell : W.cells[c]? = some (f, name))
    (same : SameValue (W.bind f name) v v')
    (receiver : name = "this" → ∃ d o, v = .instance d o) :
    Sim (some f) W env (Watched.lift (defineIn (f :: inner) name v)) (modify (·.fill c v'))
      fun W' _ _ => W' = W.bind f name :=
  fun _ _ related back =>
    .ok (Grow.bind W f name) (related.put cell same receiver) back rfl

theorem fill_newCell (s : Lexical.State) (name : String) (v : Value) :
    ({ s with cells := s.cells.push ⟨name, none⟩ } : Lexical.State).fill s.cells.size v =
      { s with cells := s.cells.push ⟨name, some v⟩ } := by
  unfold Lexical.State.fill
  congr 1
  apply Array.ext_getElem?
  intro i
  simp only [Array.getElem?_modify, Array.getElem?_push]
  by_cases last : s.cells.size = i
  · simp [last]
  · simp [last, Ne.symm last]

/-- A name gets a cell and a value at once. -/
theorem bind_sim {v v' : Value} {inner : Env} (inside : f < W.size) (isLocal : f ≠ globalFrame)
    (new : (f, name) ∉ W.cells) (unset : (f, name) ∉ W.bound) (same : SameValue W v v')
    (receiver : name = "this" → ∃ d o, v = .instance d o) :
    Sim (some f) W env (Watched.lift (defineIn (f :: inner) name v)) (newCell name (some v'))
      fun W' _ c => W' = (W.place f name).bind f name ∧ c = W.cells.length := by
  intro w s related back
  have placed : Related (W.place f name) w { s with cells := s.cells.push ⟨name, none⟩ } :=
    ⟨{ related.shared.mono (W.le_place f name) with },
      related.frames.place inside isLocal new unset,
      related.logged.keep (W.le_place f name) rfl rfl rfl rfl⟩
  have cell : (W.place f name).cells[s.cells.size]? = some (f, name) := by
    rw [related.frames.count]
    simp [World.place]
  have le := (W.le_place f name).trans (World.le_bind _ f name)
  have done := placed.put cell (same.mono le) receiver
  rw [fill_newCell] at done
  exact .ok ((Grow.place W f name).trans (Grow.bind _ f name)) done back
    ⟨rfl, related.frames.count⟩

theorem Related.putGlobal {w : Watched.State} {s : Lexical.State} (h : Related W w s)
    {v v' : Value} (same : SameValue (W.bind globalFrame name) v v') :
    Related (W.bind globalFrame name)
      { w with machine := w.machine.mapStore (·.put globalFrame name v) }
      { s with machine := s.machine.mapStore (·.put globalFrame name v') } where
  shared := { h.shared.mono (W.le_bind globalFrame name) with }
  frames := h.frames.putGlobal same
  logged := h.logged.keep (W.le_bind globalFrame name) rfl rfl rfl rfl

theorem putGlobal_sim {v v' : Value} (same : SameValue (W.bind globalFrame name) v v') :
    Sim (some globalFrame) W env (Watched.lift (defineIn globalEnv name v))
      (Lexical.lift (defineIn globalEnv name v')) fun W' _ _ => W' = W.bind globalFrame name :=
  fun _ _ related back => .ok (Grow.bind W globalFrame name) (related.putGlobal same) back rfl

end Steps

/-! ### Where statements stand -/

section Places

variable {W : World} {s s' s'' : Scope} {scopes : List Scope} {origins : List Origin}
  {names : Names} {f : FrameId} {env : Env} {name : String}

/-- A name that the innermost scope does not have has no cell and no value. -/
theorem Here.fresh (h : Here W (s :: scopes) origins names (f :: env))
    (new : s.lookup name = none) :
    (f, name) ∉ W.cells ∧ (f, name) ∉ W.bound := by
  have exact := h.exact s f name rfl rfl
  rw [new] at exact
  exact ⟨fun mem => absurd (exact.1 mem) (by simp), fun mem => absurd (exact.2 mem) (by simp)⟩

theorem Here.head_local (h : Here W (s :: scopes) origins names (f :: env)) :
    f < W.size ∧ f ≠ globalFrame :=
  ⟨h.frames f List.mem_cons_self, h.locals 0 f (Nat.zero_lt_succ _) rfl⟩

theorem Here.declare_define (h : Here W (s :: scopes) origins names (f :: env))
    (new : s.lookup name = none) (first : Updates s name false s')
    (second : Updates s' name true s'') :
    Here ((W.place f name).bind f name) (s'' :: scopes) origins (W.cells.length :: names)
      (f :: env) := by
  refine (h.declare new first).define ?_ second
  rw [first name, if_pos rfl]
  rfl

theorem Scoped.openNamed (h : Scoped W scopes origins names env) (origin : Origin)
    (positive : globalFrame < W.size) (empty : ∀ x, (W.size, x) ∉ W.cells ∧ (W.size, x) ∉ W.bound)
    (name : String) :
    Here (((W.openFrame origin env).place W.size name).bind W.size name)
      ([(name, true)] :: scopes) (origin :: origins) (W.cells.length :: names) (W.size :: env) := by
  apply (h.openFrame origin positive empty).declare_define rfl (updates_cons [] name false)
  intro x
  rw [updates_cons [] name true x, updates_cons [] name false x]
  by_cases same : x = name
  · rw [if_pos same, if_pos same]
  · rw [if_neg same, if_neg same, if_neg same]

end Places

end Lox.Scoping
