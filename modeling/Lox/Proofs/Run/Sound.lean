import Lox.Proofs.Run.Tandem
import Lox.Proofs.Run.Watched
import Lox.Proofs.Tree.Parts

/-!
# Sound states

A state of a watched run is sound if every closure in it belongs to a function of the programs that
were accepted, and every scope of `super` still holds the class that a class statement found when it
ran. `Upholds` says that a computation keeps states sound; there is a rule for each way of putting
computations together.
-/

namespace Lox.Watched

open EStateM (Result)

/-! ### The statements of programs -/

/-- The programs that were accepted, the latest first. -/
def acceptedOf (log : List Event) : List (List Stmt) :=
  log.filterMap fun
    | .accepted program => some program
    | _ => none

theorem mem_acceptedOf {log : List Event} {program : List Stmt} :
    program ∈ acceptedOf log ↔ Event.accepted program ∈ log := by
  unfold acceptedOf
  rw [List.mem_filterMap]
  constructor
  · intro found
    obtain ⟨event, mem, found⟩ := found
    cases event with
    | accepted program' => exact Option.some.inj found ▸ mem
    | opened origin env => nomatch found
    | reached id name m => nomatch found
  · exact fun mem => ⟨_, mem, rfl⟩

/-- The statement is a part of one of the programs. -/
def Known (A : List (List Stmt)) (s : Stmt) : Prop := ∃ program ∈ A, PartOf program s

/-- One of the programs declares the function. -/
def Owned (A : List (List Stmt)) (d : FunctionDecl) : Prop := ∃ s, Known A s ∧ d ∈ s.functions

def AllProper (A : List (List Stmt)) : Prop := ∀ program ∈ A, Stmt.ProperAll program

section Owned

variable {A B : List (List Stmt)} {s : Stmt} {d : FunctionDecl}

theorem Known.inner (h : Known A s) {t : Stmt} (inside : t ∈ s.children) : Known A t := by
  obtain ⟨program, mem, part⟩ := h
  exact ⟨program, mem, part.inner inside⟩

theorem Known.proper (h : Known A s) (all : AllProper A) : s.Proper := by
  obtain ⟨program, mem, part⟩ := h
  exact part.proper (all program mem)

theorem Known.mono (h : Known A s) (sub : A ⊆ B) : Known B s := by
  obtain ⟨program, mem, part⟩ := h
  exact ⟨program, sub mem, part⟩

theorem Owned.body (h : Owned A d) : ∀ s ∈ d.body, Known A s := by
  obtain ⟨s, known, declared⟩ := h
  exact fun t inside => known.inner (Stmt.body_children declared inside)

theorem Owned.proper (h : Owned A d) (all : AllProper A) : d.Proper := by
  obtain ⟨s, known, declared⟩ := h
  exact (known.proper all).functions d declared

theorem Owned.mono (h : Owned A d) (sub : A ⊆ B) : Owned B d := by
  obtain ⟨s, known, declared⟩ := h
  exact ⟨s, known.mono sub, declared⟩

end Owned

/-- Only closures of functions that are owned count as the same, each as itself. -/
def ownership (A : List (List Stmt)) : Likeness where
  function c d := c = d ∧ Owned A c.declaration
  method c d := c = d ∧ Owned A c.declaration
  function_arity same := congrArg (·.declaration.arity) same.1
  function_name same := congrArg (·.declaration.name.lexeme) same.1
  method_arity same := congrArg (·.declaration.arity) same.1

theorem ownership_le {A B : List (List Stmt)} (sub : A ⊆ B) : (ownership A).Le (ownership B) :=
  ⟨fun _ _ same => ⟨same.1, same.2.mono sub⟩, fun _ _ same => ⟨same.1, same.2.mono sub⟩⟩

/-- All closures in the value are owned. -/
abbrev Sane (A : List (List Stmt)) (v : Value) : Prop := LikeValue (ownership A) v v

theorem rel_self {α : Type} {R : α → α → Prop} {o : Option α} (h : Option.Rel R o o) {a : α}
    (found : o = some a) : R a a := by
  subst found
  cases h with
  | some holds => exact holds

/-! ### Sound states -/

/-- No frame was lost, and none got another superclass. -/
structure Preserves (s s' : Store) : Prop where
  size : s.frames.size ≤ s'.frames.size
  super : ∀ f, f < s.frames.size → s'.getHere? f "super" = s.getHere? f "super"

/-- A scope of `super` was opened for a class statement, right after the superclass was looked up,
and holds the class that was found. -/
structure Inherited (A : List (List Stmt)) (w : State) (methods : List FunctionDecl) (inner : Env)
    (id : NodeId) (superclass : Token) (m : Machine) (parent : Class) : Prop where
  declared : ∃ name, Known A (.class name (some (.variable id superclass)) methods)
  directly : [.opened (.super methods) inner, .reached id superclass.lexeme m] <:+: w.log
  found : m.valueAt? id superclass.lexeme = some (.callable (.class parent))
  kept : ∃ frame outer, inner = frame :: outer ∧ frame < w.machine.store.frames.size ∧
    w.machine.store.getHere? frame "super" = some (.callable (.class parent))

structure Sound (A : List (List Stmt)) (w : State) : Prop where
  accepted : acceptedOf w.log = A
  shared : LikeState (ownership A) w.machine w.machine
  frames : LikeFrames (ownership A) w.machine.store w.machine.store
  called : ∀ d env, .opened (.call d) env ∈ w.log → Owned A d
  supers : ∀ methods inner, .opened (.super methods) inner ∈ w.log →
    ∃ id superclass m parent, Inherited A w methods inner id superclass m parent
  /-- What a scope of `super` held when a node was reached it still holds. -/
  earlier : ∀ id name m, .reached id name m ∈ w.log → Preserves m.store w.machine.store

section States

variable {A : List (List Stmt)} {w w' : State}

theorem Preserves.of_frames {s s' : Store} (same : s'.frames = s.frames) : Preserves s s' :=
  ⟨by rw [same], fun f _ => getHere?_frames same f "super"⟩

theorem Preserves.refl (s : Store) : Preserves s s := .of_frames rfl

theorem Preserves.trans {s s' s'' : Store} (h : Preserves s s') (k : Preserves s' s'') :
    Preserves s s'' :=
  ⟨Nat.le_trans h.size k.size, fun f below =>
    (k.super f (Nat.lt_of_lt_of_le below h.size)).trans (h.super f below)⟩

theorem preserves_put (s : Store) (frame : FrameId) {name : String} (v : Value)
    (other : name ≠ "super") : Preserves s (s.put frame name v) :=
  ⟨by simp [Store.put], fun f _ => getHere?_put_other s frame other v f⟩

theorem preserves_child (s : Store) (env : Env) : Preserves s (s.child env).2 :=
  ⟨by simp [Store.child], fun f _ => s.getHere?_child env f "super"⟩

theorem preserves_super (s : Store) (env : Env) (v : Value) :
    Preserves s ((s.child env).2.put s.frames.size "super" v) := by
  refine ⟨Nat.le_of_lt (Nat.lt_of_lt_of_eq (Nat.lt_succ_self _) (size_child_put ..).symm),
    fun f below => ?_⟩
  rw [getHere?_child_put, if_neg fun both => Nat.ne_of_lt below both.1]

theorem Inherited.later {methods : List FunctionDecl} {inner : Env} {id : NodeId}
    {superclass : Token} {m : Machine} {parent : Class}
    (h : Inherited A w methods inner id superclass m parent) (log : w.log <:+ w'.log)
    (store : Preserves w.machine.store w'.machine.store) :
    Inherited A w' methods inner id superclass m parent where
  declared := h.declared
  directly := h.directly.trans log.isInfix
  found := h.found
  kept := by
    obtain ⟨frame, outer, same, below, super⟩ := h.kept
    exact ⟨frame, outer, same, Nat.lt_of_lt_of_le below store.size,
      (store.super frame below).trans super⟩

namespace Sound

/-- A step after which the log says nothing new. -/
theorem moved (h : Sound A w) {m : Machine} (shared : LikeState (ownership A) m m)
    (frames : LikeFrames (ownership A) m.store m.store)
    (store : Preserves w.machine.store m.store) : Sound A { w with machine := m } where
  accepted := h.accepted
  shared := shared
  frames := frames
  called := h.called
  supers methods inner opened := by
    obtain ⟨id, superclass, m, parent, inherited⟩ := h.supers methods inner opened
    exact ⟨id, superclass, m, parent, inherited.later (List.suffix_refl _) store⟩
  earlier id name m reached := (h.earlier id name m reached).trans store

theorem aside (h : Sound A w) {m : Machine} (shared : LikeState (ownership A) m m)
    (step : Aside w.machine m) : Sound A { w with machine := m } := by
  refine h.moved shared ⟨rfl, fun f x => ?_⟩ (.of_frames step.frames)
  rw [getHere?_frames step.frames]
  exact h.frames.here f x

theorem put (h : Sound A w) (frame : FrameId) {name : String} (other : name ≠ "super") {v : Value}
    (sane : Sane A v) : Sound A { w with machine := w.machine.mapStore (·.put frame name v) } :=
  h.moved { h.shared with } (h.frames.put frame name sane) (preserves_put _ frame v other)

theorem env (h : Sound A w) (env : Env) : Sound A { w with machine := { w.machine with env } } :=
  h.moved { h.shared with } h.frames (.of_frames rfl)

/-- An event that is not the opening of a scope. -/
theorem reach (h : Sound A w) (id : NodeId) (name : String) :
    Sound A { w with log := .reached id name w.machine :: w.log } where
  accepted := h.accepted
  shared := h.shared
  frames := h.frames
  called d env opened := by
    rcases List.mem_cons.1 opened with new | old
    · nomatch new
    · exact h.called d env old
  supers methods inner opened := by
    rcases List.mem_cons.1 opened with new | old
    · nomatch new
    · obtain ⟨id, superclass, m, parent, inherited⟩ := h.supers methods inner old
      exact ⟨id, superclass, m, parent,
        inherited.later (List.suffix_cons _ _) (.refl _)⟩
  earlier id name m reached := by
    rcases List.mem_cons.1 reached with new | old
    · cases new
      exact .refl _
    · exact h.earlier id name m old

/-- Another program is accepted. What is known stays known. -/
theorem accept (h : Sound A w) (program : List Stmt) :
    Sound (program :: A) { w with log := .accepted program :: w.log } where
  accepted := congrArg (program :: ·) h.accepted
  shared := h.shared.mono (ownership_le (List.subset_cons_self _ _))
  frames := ⟨h.frames.size, fun f x => rel_mono (h.frames.here f x) fun _ _ same =>
    same.mono (ownership_le (List.subset_cons_self _ _))⟩
  called d env opened := by
    rcases List.mem_cons.1 opened with new | old
    · nomatch new
    · exact (h.called d env old).mono (List.subset_cons_self _ _)
  supers methods inner opened := by
    rcases List.mem_cons.1 opened with new | old
    · nomatch new
    · obtain ⟨id, superclass, m, parent, inherited⟩ := h.supers methods inner old
      obtain ⟨name, known⟩ := inherited.declared
      have later : Inherited A { w with log := .accepted program :: w.log } _ _ _ _ _ _ :=
        inherited.later (List.suffix_cons _ _) (.refl _)
      exact ⟨id, superclass, m, parent,
        { later with declared := ⟨name, known.mono (List.subset_cons_self _ _)⟩ }⟩
  earlier id name m reached := by
    rcases List.mem_cons.1 reached with new | old
    · nomatch new
    · exact h.earlier id name m old

/-- A scope is opened that is none of `super`. -/
theorem child (h : Sound A w) {origin : Binding.Origin} (env inner : Env)
    (called : ∀ d, origin = .call d → Owned A d) (plain : ∀ methods, origin ≠ .super methods) :
    Sound A ⟨w.machine.mapStore fun s => (s.child env).2, .opened origin inner :: w.log⟩ where
  accepted := h.accepted
  shared := { h.shared with }
  frames := h.frames.child env
  called d env opened := by
    rcases List.mem_cons.1 opened with new | old
    · obtain ⟨same, -⟩ := Event.opened.inj new
      exact called d same.symm
    · exact h.called d env old
  supers methods inner opened := by
    rcases List.mem_cons.1 opened with new | old
    · obtain ⟨same, -⟩ := Event.opened.inj new
      exact absurd same.symm (plain methods)
    · obtain ⟨id, superclass, m, parent, inherited⟩ := h.supers methods inner old
      exact ⟨id, superclass, m, parent,
        inherited.later (List.suffix_cons _ _) (preserves_child _ env)⟩
  earlier id name m reached := by
    rcases List.mem_cons.1 reached with new | old
    · nomatch new
    · exact (h.earlier id name m old).trans (preserves_child _ env)

/-- The scope of `super` is opened for a class statement whose superclass was just looked up. -/
theorem inherit (h : Sound A w) {name superclass : Token} {id : NodeId}
    {methods : List FunctionDecl} (known : Known A (.class name (some (.variable id superclass)) methods))
    {m : Machine} {log : List Event} (latest : w.log = .reached id superclass.lexeme m :: log)
    {parent : Class} (found : m.valueAt? id superclass.lexeme = some (.callable (.class parent)))
    (sane : LikeClass (ownership A) parent parent) (env : Env) :
    Sound A ⟨w.machine.mapStore fun s => (s.child env).2.put s.frames.size "super"
      (.callable (.class parent)), .opened (.super methods) (w.machine.store.frames.size :: env) ::
        w.log⟩ where
  accepted := h.accepted
  shared := { h.shared with }
  frames := (h.frames.child env).put _ "super" (.callable (.class sane))
  called d env opened := by
    rcases List.mem_cons.1 opened with new | old
    · nomatch new
    · exact h.called d env old
  supers methods' inner opened := by
    rcases List.mem_cons.1 opened with mine | old
    · obtain ⟨same, rfl⟩ := Event.opened.inj mine
      obtain rfl := Binding.Origin.super.inj same
      refine ⟨id, superclass, m, parent, ⟨name, known⟩, ?_, found, _, _, rfl, ?_, ?_⟩
      · rw [latest]
        exact (List.prefix_append [_, _] log).isInfix
      · exact Nat.lt_of_lt_of_eq (Nat.lt_succ_self _) (size_child_put ..).symm
      · exact (getHere?_child_put ..).trans (if_pos ⟨rfl, rfl⟩)
    · obtain ⟨id, superclass, m, parent', inherited⟩ := h.supers methods' inner old
      exact ⟨id, superclass, m, parent',
        inherited.later (List.suffix_cons _ _) (preserves_super _ env _)⟩
  earlier id name m reached := by
    rcases List.mem_cons.1 reached with new | old
    · nomatch new
    · exact (h.earlier id name m old).trans (preserves_super _ env _)

end Sound

end States

/-! ### Computations -/

/-- The computation ended in a sound state. -/
inductive Upheld (A : List (List Stmt)) {α : Type} (R : α → State → Prop) : Result Halt State α → Prop
  | ok {a : α} {w : State} (sound : Sound A w) (holds : R a w) : Upheld A R (.ok a w)
  | error {e : Halt} {w : State} (sound : Sound A w) : Upheld A R (.error e w)

/-- The computation ends in a sound state wherever it starts in one. -/
def Upholds (A : List (List Stmt)) {α : Type} (x : Watch α) (R : α → Prop) : Prop :=
  ∀ w, Sound A w → Upheld A (fun a _ => R a) (x w)

theorem Upheld.bind {A : List (List Stmt)} {α β : Type} {R : α → State → Prop} {S : β → State → Prop}
    {x : Watch α} {f : α → Watch β} {w : State} (first : Upheld A R (x w))
    (next : ∀ a w', Sound A w' → R a w' → Upheld A S (f a w')) : Upheld A S ((x >>= f) w) := by
  show Upheld A S (EStateM.bind x f w)
  unfold EStateM.bind
  generalize x w = r at first ⊢
  cases first with
  | ok sound holds => exact next _ _ sound holds
  | error sound => exact .error sound

/-- A lifted computation notes nothing. -/
theorem Upheld.quiet {A : List (List Stmt)} {α : Type} {R : α → State → Prop} {x : Eval α}
    {w : State} (h : Upheld A R (lift x w)) :
    Upheld A (fun a w' => R a w' ∧ w'.log = w.log) (lift x w) := by
  unfold lift at h ⊢
  cases run : x w.machine with
  | ok a m =>
    rw [run] at h
    cases h with
    | ok sound holds => exact .ok sound ⟨holds, rfl⟩
  | error e m =>
    rw [run] at h
    cases h with
    | error sound => exact .error sound

namespace Upholds

variable {A : List (List Stmt)} {α β : Type} {R : α → Prop} {S : β → Prop}

theorem pure {a : α} (holds : R a) : Upholds A (Pure.pure a) R := fun _ sound => .ok sound holds

theorem throw (e : Halt) : Upholds A (MonadExcept.throw e) R := fun _ sound => .error sound

theorem bind {x : Watch α} {f : α → Watch β} (first : Upholds A x R)
    (next : ∀ a, R a → Upholds A (f a) S) : Upholds A (x >>= f) S :=
  fun w sound => (first w sound).bind fun a _ sound holds => next a holds _ sound

theorem look {f : Machine → Watch α} (h : ∀ w, Sound A w → Upholds A (f w.machine) R) :
    Upholds A (Watched.lift MonadState.get >>= f) R :=
  fun w sound => h w sound w sound

theorem ite {c : Prop} [Decidable c] {x y : Watch α} (h : Upholds A x R) (k : Upholds A y R) :
    Upholds A (if c then x else y) R := by
  split
  · exact h
  · exact k

theorem reach (id : NodeId) (name : String) {f : Unit → Watch α} (h : Upholds A (f ()) R) :
    Upholds A (Watched.reach id name >>= f) R :=
  fun _ sound => h _ (sound.reach id name)

theorem within {env : Env} {x : Watch α} (h : Upholds A x R) :
    Upholds A (Watched.within env x) R := by
  intro w sound
  have done := h _ (sound.env env)
  unfold Watched.within
  dsimp only
  generalize x _ = r at done ⊢
  cases done with
  | ok sound holds => exact .ok (sound.env _) holds
  | error sound => exact .error (sound.env _)

theorem openFrame (origin : Binding.Origin) (env : Env) (called : ∀ d, origin = .call d → Owned A d)
    (plain : ∀ methods, origin ≠ .super methods) :
    Upholds A (Watched.openFrame origin env) fun _ => True :=
  fun _ sound => .ok (sound.child env _ called plain) trivial

/-- A step beside the frames. -/
theorem lift {x : Eval α} {R : α → α → Prop} (h : Likewise (ownership A) x x R) :
    Upholds A (Watched.lift x) fun a => R a a := by
  intro w sound
  have done := h w.machine w.machine sound.shared
  unfold Watched.lift
  cases run : x w.machine with
  | ok a m =>
    rw [run] at done
    cases done with
    | ok shared aside _ holds => exact .ok (sound.aside shared aside) holds
  | error e m =>
    rw [run] at done
    cases done with
    | error shared aside _ => exact .error (sound.aside shared aside)

theorem fail (line : Nat) (cause : RuntimeFault) : Upholds A (Watched.lift (Lox.fail line cause)) R :=
  fun _ sound => .error sound

theorem orFail (line : Nat) (cause : RuntimeFault) {o : Option α} (h : ∀ a, o = some a → R a) :
    Upholds A (Watched.lift (Lox.orFail line cause o)) R := by
  cases o with
  | none => exact fail line cause
  | some a => exact fun _ sound => .ok sound (h a rfl)

/-- A step that depends on the machine. -/
theorem lift_get {g : Machine → Eval α}
    (h : ∀ w, Sound A w → Upholds A (Watched.lift (g w.machine)) R) :
    Upholds A (Watched.lift (MonadState.get >>= g)) R :=
  fun w sound => h w sound w sound

end Upholds

end Lox.Watched
