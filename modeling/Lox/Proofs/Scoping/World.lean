import Mathlib.Data.List.Forall2
import Lox.Proofs.Binding.Scope
import Lox.Proofs.Run.Lexical

/-!
# Worlds

A world is what ties a run to the walk over its programs and to the reference run: the sites of the
programs, the frame and name that each reference cell stands for, and what has happened to frames so
far. `Scoped` says that an environment and a map from names to cells both realize the scopes of the
walk. Worlds only grow, and what is scoped stays scoped (`Scoped.mono`).
-/

namespace Lox.Scoping

open Binding (Scope Site Origin distance Updates distance_cons distance_updates)
open Lexical (Names CellId)

structure World where
  sites : List Site
  size : Nat
  /-- The local names that were declared, in the order of their cells. -/
  cells : List (FrameId × String)
  /-- The local names that have a value. -/
  bound : List (FrameId × String)
  opened : List (Origin × Env)

namespace World

def openFrame (W : World) (origin : Origin) (env : Env) : World :=
  { W with size := W.size + 1, opened := (origin, W.size :: env) :: W.opened }

def place (W : World) (frame : FrameId) (name : String) : World :=
  { W with cells := W.cells ++ [(frame, name)] }

def bind (W : World) (frame : FrameId) (name : String) : World :=
  { W with bound := (frame, name) :: W.bound }

def accept (W : World) (program : List Stmt) : World :=
  { W with sites := Binding.programSites program ++ W.sites }

/-- The latest cell of a name in a map. -/
def find? (W : World) (names : Names) (name : String) : Option CellId :=
  names.find? fun c => (W.cells[c]?).any (·.2 == name)

structure Le (W W' : World) : Prop where
  sites : W.sites ⊆ W'.sites
  size : W.size ≤ W'.size
  cells : W.cells <+: W'.cells
  bound : W.bound ⊆ W'.bound
  opened : W.opened ⊆ W'.opened

theorem Le.refl (W : World) : Le W W :=
  ⟨fun _ => id, Nat.le_refl _, List.prefix_refl _, fun _ => id, fun _ => id⟩

theorem Le.trans {W W' W'' : World} (h : Le W W') (k : Le W' W'') : Le W W'' :=
  ⟨List.Subset.trans h.sites k.sites, Nat.le_trans h.size k.size, h.cells.trans k.cells,
    List.Subset.trans h.bound k.bound, List.Subset.trans h.opened k.opened⟩

theorem Le.covers {W W' : World} (h : Le W W') {sites : List Site} (known : sites ⊆ W.sites) :
    sites ⊆ W'.sites :=
  List.Subset.trans known h.sites

theorem le_openFrame (W : World) (origin : Origin) (env : Env) : Le W (W.openFrame origin env) :=
  ⟨fun _ => id, Nat.le_succ _, List.prefix_refl _, fun _ => id, List.subset_cons_self _ _⟩

theorem le_place (W : World) (frame : FrameId) (name : String) : Le W (W.place frame name) :=
  ⟨fun _ => id, Nat.le_refl _, List.prefix_append _ _, fun _ => id, fun _ => id⟩

theorem le_bind (W : World) (frame : FrameId) (name : String) : Le W (W.bind frame name) :=
  ⟨fun _ => id, Nat.le_refl _, List.prefix_refl _, List.subset_cons_self _ _, fun _ => id⟩

theorem le_accept (W : World) (program : List Stmt) : Le W (W.accept program) :=
  ⟨List.subset_append_right _ _, Nat.le_refl _, List.prefix_refl _, fun _ => id, fun _ => id⟩

@[simp] theorem mem_place {W : World} {f g : FrameId} {x y : String} :
    (g, y) ∈ (W.place f x).cells ↔ (g, y) ∈ W.cells ∨ g = f ∧ y = x := by
  simp [place]

@[simp] theorem mem_bind {W : World} {f g : FrameId} {x y : String} :
    (g, y) ∈ (W.bind f x).bound ↔ (g = f ∧ y = x) ∨ (g, y) ∈ W.bound := by
  simp [bind]

theorem Le.cell {W W' : World} (h : Le W W') {c : CellId} {p : FrameId × String}
    (found : W.cells[c]? = some p) : W'.cells[c]? = some p := by
  obtain ⟨more, same⟩ := h.cells
  rw [← same, List.getElem?_append_left (List.getElem?_eq_some_iff.1 found).1]
  exact found

/-- A map means the same in a later world. -/
theorem Le.find? {W W' : World} (h : Le W W') {names : Names}
    (known : ∀ c ∈ names, c < W.cells.length) (name : String) :
    W'.find? names name = W.find? names name := by
  obtain ⟨more, same⟩ := h.cells
  induction names with
  | nil => rfl
  | cons c names ih =>
    have here : W'.cells[c]? = W.cells[c]? := by
      rw [← same, List.getElem?_append_left (known c List.mem_cons_self)]
    have rest := ih fun d mem => known d (List.mem_cons_of_mem _ mem)
    unfold World.find? at rest ⊢
    rw [List.find?_cons, List.find?_cons, here, rest]

end World

/-! ### Environments and maps -/

/-- The environment has a frame for every scope and the global one last, and the map has the cells
of the names that the scopes declare. -/
structure Scoped (W : World) (scopes : List Scope) (origins : List Origin) (names : Names)
    (env : Env) : Prop where
  depth : env.length = scopes.length + 1
  root : env[scopes.length]? = some globalFrame
  origins_length : origins.length = scopes.length
  known : ∀ c ∈ names, c < W.cells.length
  frames : ∀ f ∈ env, f < W.size
  locals : ∀ (i : Nat) f, i < scopes.length → env[i]? = some f → f ≠ globalFrame
  absent : ∀ x, distance scopes x = none → W.find? names x = none
  present : ∀ x d, distance scopes x = some d →
    ∃ c f, W.find? names x = some c ∧ env[d]? = some f ∧ W.cells[c]? = some (f, x)
  bound : ∀ (i : Nat) s f x, scopes[i]? = some s → env[i]? = some f → s.lookup x = some true →
    (f, x) ∈ W.bound
  opened : ∀ (i : Nat) o, origins[i]? = some o → (o, env.drop i) ∈ W.opened

theorem Scoped.mono {W W' : World} {scopes : List Scope} {origins : List Origin} {names : Names}
    {env : Env} (h : Scoped W scopes origins names env) (le : W.Le W') :
    Scoped W' scopes origins names env where
  depth := h.depth
  root := h.root
  origins_length := h.origins_length
  known c mem := Nat.lt_of_lt_of_le (h.known c mem) le.cells.length_le
  frames f mem := Nat.lt_of_lt_of_le (h.frames f mem) le.size
  locals := h.locals
  absent x none := by rw [le.find? h.known, h.absent x none]
  present x d some := by
    obtain ⟨c, f, found, frame, cell⟩ := h.present x d some
    exact ⟨c, f, by rw [le.find? h.known, found], frame, le.cell cell⟩
  bound i s f x scope frame defined := le.bound (h.bound i s f x scope frame defined)
  opened i o origin := le.opened (h.opened i o origin)

/-- Where a statement stands, the innermost frame has no names but those of the innermost scope, and
no values but those of its defined names. -/
structure Here (W : World) (scopes : List Scope) (origins : List Origin) (names : Names)
    (env : Env) : Prop extends Scoped W scopes origins names env where
  exact : ∀ s f x, scopes.head? = some s → env.head? = some f →
    ((f, x) ∈ W.cells → (s.lookup x).isSome) ∧ ((f, x) ∈ W.bound → s.lookup x = some true)

/-- A later world with nothing new in the old frames, but for one if it is given. -/
structure Grow (head : Option FrameId) (W W' : World) : Prop where
  le : W.Le W'
  old : ∀ f x, f < W.size → some f ≠ head →
    ((f, x) ∈ W'.cells → (f, x) ∈ W.cells) ∧ ((f, x) ∈ W'.bound → (f, x) ∈ W.bound)

namespace Grow

theorem refl (head : Option FrameId) (W : World) : Grow head W W :=
  ⟨World.Le.refl W, fun _ _ _ _ => ⟨id, id⟩⟩

theorem trans {head : Option FrameId} {W W' W'' : World} (h : Grow head W W')
    (k : Grow head W' W'') : Grow head W W'' := by
  refine ⟨h.le.trans k.le, fun f x old other => ?_⟩
  have first := h.old f x old other
  have second := k.old f x (Nat.lt_of_lt_of_le old h.le.size) other
  exact ⟨first.1 ∘ second.1, first.2 ∘ second.2⟩

theorem weaken {head : Option FrameId} {W W' : World} (h : Grow none W W') : Grow head W W' :=
  ⟨h.le, fun f x old _ => h.old f x old (by simp)⟩

/-- What happens in a new frame is nothing new in the old ones. -/
theorem fresh {head : Option FrameId} {W W' W'' : World} {frame : FrameId} (h : Grow head W W')
    (new : W.size ≤ frame) (k : Grow (some frame) W' W'') : Grow head W W'' := by
  refine ⟨h.le.trans k.le, fun f x old other => ?_⟩
  have first := h.old f x old other
  have second := k.old f x (Nat.lt_of_lt_of_le old h.le.size) fun same => by
    obtain rfl := Option.some.inj same
    exact absurd old (Nat.not_lt.2 new)
  exact ⟨first.1 ∘ second.1, first.2 ∘ second.2⟩

theorem openFrame (head : Option FrameId) (W : World) (origin : Origin) (env : Env) :
    Grow head W (W.openFrame origin env) :=
  ⟨W.le_openFrame origin env, fun _ _ _ _ => ⟨id, id⟩⟩

theorem place (W : World) (frame : FrameId) (name : String) :
    Grow (some frame) W (W.place frame name) := by
  refine ⟨W.le_place frame name, fun f x _ other => ⟨fun mem => ?_, id⟩⟩
  rcases World.mem_place.1 mem with old | ⟨same, -⟩
  · exact old
  · exact absurd (congrArg some same) other

theorem bind (W : World) (frame : FrameId) (name : String) :
    Grow (some frame) W (W.bind frame name) := by
  refine ⟨W.le_bind frame name, fun f x _ other => ⟨id, fun mem => ?_⟩⟩
  rcases World.mem_bind.1 mem with ⟨same, -⟩ | old
  · exact absurd (congrArg some same) other
  · exact old

end Grow

/-- Nothing that an expression does changes where the statement around it stands. -/
theorem Here.grow {W W' : World} {scopes : List Scope} {origins : List Origin} {names : Names}
    {env : Env} (h : Here W scopes origins names env) (grow : Grow none W W') :
    Here W' scopes origins names env := by
  refine ⟨h.toScoped.mono grow.le, fun s f x scope frame => ?_⟩
  have old := grow.old f x (h.frames f (List.mem_of_mem_head? frame)) (by simp)
  have exact := h.exact s f x scope frame
  exact ⟨exact.1 ∘ old.1, exact.2 ∘ old.2⟩

/-! ### Scopes that change -/

section Changes

variable {W : World} {s s' : Scope} {scopes : List Scope} {origins : List Origin} {names : Names}
  {f : FrameId} {env : Env} {name : String}

/-- The fresh cell is the latest one of its name. -/
theorem find?_place (known : ∀ c ∈ names, c < W.cells.length) (f : FrameId) (name x : String) :
    (W.place f name).find? (W.cells.length :: names) x =
      if x = name then some W.cells.length else W.find? names x := by
  have cell : (W.place f name).cells[W.cells.length]? = some (f, name) := by simp [World.place]
  have rest := (W.le_place f name).find? known x
  unfold World.find? at rest ⊢
  rw [List.find?_cons, cell, Option.any_some]
  by_cases same : x = name
  · rw [if_pos same, same, beq_self_eq_true]
  · rw [if_neg same, beq_false_of_ne (Ne.symm same)]
    exact rest

/-- A declaration: the innermost scope gets a name, and the map its cell. -/
theorem Here.declare (h : Here W (s :: scopes) origins names (f :: env))
    (new : s.lookup name = none) (update : Updates s name false s') :
    Here (W.place f name) (s' :: scopes) origins (W.cells.length :: names) (f :: env) where
  depth := h.depth
  root := h.root
  origins_length := h.origins_length
  known c mem := by
    have size : (W.place f name).cells.length = W.cells.length + 1 := by simp [World.place]
    rw [size]
    rcases List.mem_cons.1 mem with rfl | old
    · exact Nat.lt_succ_self _
    · exact Nat.lt_succ_of_lt (h.known c old)
  frames := h.frames
  locals := h.locals
  absent x none := by
    rw [distance_updates update] at none
    rw [find?_place h.known]
    by_cases same : x = name
    · rw [if_pos same] at none
      exact absurd none (by simp)
    · rw [if_neg same] at none ⊢
      exact h.absent x none
  present x d some := by
    rw [distance_updates update] at some
    rw [find?_place h.known]
    by_cases same : x = name
    · rw [if_pos same] at some ⊢
      obtain rfl := Option.some.inj some
      exact ⟨_, f, rfl, rfl, by simp [World.place, same]⟩
    · rw [if_neg same] at some ⊢
      obtain ⟨c, g, found, frame, cell⟩ := h.present x d some
      exact ⟨c, g, found, frame, (W.le_place f name).cell cell⟩
  bound i t g x scope frame defined := by
    cases i with
    | zero =>
      obtain rfl := Option.some.inj scope
      rw [update x] at defined
      by_cases same : x = name
      · rw [if_pos same] at defined
        exact absurd defined (by simp)
      · rw [if_neg same] at defined
        exact h.bound 0 s g x rfl frame defined
    | succ i => exact h.bound (i + 1) t g x scope frame defined
  opened := h.opened
  exact t g x scope frame := by
    obtain rfl := Option.some.inj scope
    obtain rfl := Option.some.inj frame
    have before := h.exact s f x rfl rfl
    rw [update x]
    refine ⟨fun mem => ?_, fun mem => ?_⟩
    · by_cases same : x = name
      · rw [if_pos same]
        rfl
      · rw [if_neg same]
        rcases World.mem_place.1 mem with old | ⟨-, placed⟩
        · exact before.1 old
        · exact absurd placed same
    · have defined := before.2 mem
      rw [if_neg, defined]
      intro same
      rw [same, new] at defined
      exact absurd defined (by simp)

/-- A declared name gets its value, or another one. -/
theorem Here.define (h : Here W (s :: scopes) origins names (f :: env))
    (declared : (s.lookup name).isSome) (update : Updates s name true s') :
    Here (W.bind f name) (s' :: scopes) origins names (f :: env) := by
  have later := h.toScoped.mono (W.le_bind f name)
  have place : ∀ x, distance (s' :: scopes) x = distance (s :: scopes) x := by
    intro x
    rw [distance_updates update]
    by_cases same : x = name
    · rw [if_pos same, distance_cons, same, if_pos declared]
    · rw [if_neg same]
  refine { depth := h.depth, root := h.root, origins_length := h.origins_length, known := h.known,
           frames := h.frames, locals := h.locals, opened := h.opened, absent := ?_,
           present := ?_, bound := ?_, exact := ?_ }
  · intro x none
    rw [place] at none
    exact later.absent x none
  · intro x d some
    rw [place] at some
    exact later.present x d some
  · intro i t g x scope frame defined
    cases i with
    | zero =>
      obtain rfl := Option.some.inj scope
      obtain rfl := Option.some.inj frame
      rw [update x] at defined
      by_cases same : x = name
      · rw [same]
        exact List.mem_cons_self
      · rw [if_neg same] at defined
        exact later.bound 0 s f x rfl rfl defined
    | succ i => exact later.bound (i + 1) t g x scope frame defined
  · intro t g x scope frame
    obtain rfl := Option.some.inj scope
    obtain rfl := Option.some.inj frame
    have before := h.exact s f x rfl rfl
    rw [update x]
    by_cases same : x = name
    · rw [if_pos same]
      exact ⟨fun _ => rfl, fun _ => rfl⟩
    · rw [if_neg same]
      refine ⟨before.1, fun mem => ?_⟩
      rcases World.mem_bind.1 mem with ⟨-, new⟩ | old
      · exact absurd new same
      · exact before.2 old

end Changes

/-- A new scope has nothing in it. -/
theorem Scoped.openFrame {W : World} {scopes : List Scope} {origins : List Origin} {names : Names}
    {env : Env} (h : Scoped W scopes origins names env) (origin : Origin)
    (positive : globalFrame < W.size) (empty : ∀ x, (W.size, x) ∉ W.cells ∧ (W.size, x) ∉ W.bound) :
    Here (W.openFrame origin env) ([] :: scopes) (origin :: origins) names (W.size :: env) := by
  have later := h.mono (W.le_openFrame origin env)
  have place : ∀ x, distance ([] :: scopes) x = (distance scopes x).map (· + 1) :=
    distance_cons [] scopes
  refine { depth := by simp [h.depth], root := h.root, origins_length := by simp [h.origins_length],
           known := h.known, frames := ?_, locals := ?_, opened := ?_, absent := ?_,
           present := ?_, bound := ?_, exact := ?_ }
  · intro f mem
    rcases List.mem_cons.1 mem with rfl | old
    · exact Nat.lt_succ_self _
    · exact later.frames f old
  · intro i f within frame
    cases i with
    | zero =>
      obtain rfl := Option.some.inj frame
      exact Nat.ne_of_gt positive
    | succ i => exact h.locals i f (Nat.lt_of_succ_lt_succ within) frame
  · intro x none
    rw [place, Option.map_eq_none_iff] at none
    exact later.absent x none
  · intro x d some
    rw [place, Option.map_eq_some_iff] at some
    obtain ⟨e, outer, rfl⟩ := some
    exact later.present x e outer
  · intro i s f x scope frame defined
    cases i with
    | zero =>
      obtain rfl := Option.some.inj scope
      exact absurd defined (by simp)
    | succ i => exact later.bound i s f x scope frame defined
  · intro i o mine
    cases i with
    | zero =>
      obtain rfl := Option.some.inj mine
      exact List.mem_cons_self
    | succ i => exact later.opened i o mine
  · intro s f x scope frame
    obtain rfl := Option.some.inj frame
    exact ⟨fun mem => absurd mem (empty x).1, fun mem => absurd mem (empty x).2⟩

end Lox.Scoping
