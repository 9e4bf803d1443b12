import Lox.Proofs.Binding.Rules
import Lox.Proofs.Grammar.Checked
import Lox.Proofs.Run.Provenance
import Lox.Proofs.Scoping.Session

/-!
# Programs that passed the checks

Whatever a session runs has passed the parser and the walk, and all that is left of it afterwards
comes from such programs (`session_accounted`).
-/

namespace Lox

/-- What the parser and the walk make sure of. -/
structure Vetted (program : List Stmt) : Prop where
  proper : Stmt.ProperAll program
  formed : Stmt.FormedAll false program
  lawful : Binding.Lawful program
  checked : Stmt.CheckedAll AnySuper program

theorem vetted_of_clean {source : String} {nextId : NodeId} {program : List Stmt}
    (read : (compile source nextId).result = .ok program) {m : Machine}
    (clean : (m.bind program).1 = []) : Vetted program where
  proper := (Scoping.compile_good read).2
  formed := Grammar.parse_formed (Scoping.parse_of_compile read)
  lawful := (Binding.program_clean (Grammar.parse_formed (Scoping.parse_of_compile read))).1 clean
  checked := Grammar.parse_checked (Scoping.parse_of_compile read)

namespace Watched

/-- The state is sound, and all programs in it were vetted. -/
structure Accounted (A : List (List Stmt)) (w : State) : Prop where
  sound : Sound A w
  vetted : ∀ program ∈ A, Vetted program

theorem Accounted.proper {A : List (List Stmt)} {w : State} (h : Accounted A w) : AllProper A :=
  fun program mem => (h.vetted program mem).proper

theorem accounted_start (input : List UInt8) (sink : Sink) (clock : Nat → Float) :
    Accounted [] (.start input sink clock) where
  sound := {
    accepted := rfl
    shared := likeState_start _ input sink clock
    frames := likeFrames_start _
    called := fun _ _ opened => absurd opened List.not_mem_nil
    supers := fun _ _ opened => absurd opened List.not_mem_nil
    earlier := fun _ _ _ reached => absurd reached List.not_mem_nil }
  vetted := List.forall_mem_nil _

section Texts

variable {A : List (List Stmt)} {w : State}

theorem Sound.file (h : Sound A w) (distances : Std.TreeMap NodeId Nat) (nextNode : NodeId) :
    Sound A { w with machine := { w.machine with distances, nextNode } } :=
  h.moved { h.shared with } h.frames (.of_frames rfl)

/-- The state in which a program starts to run. -/
theorem Accounted.accept (h : Accounted A w) (high : NodeId) {program : List Stmt}
    (vetted : Vetted program) :
    Accounted (program :: A) ⟨(({ w.machine with nextNode := high } : Machine).bind program).2,
      .accepted program :: w.log⟩ where
  sound := (h.sound.file _ high).accept program
  vetted := List.forall_mem_cons.2 ⟨vetted, h.vetted⟩

theorem Accounted.after {α : Type} {r : EStateM.Result Halt State α} {R : α → State → Prop}
    (vetted : ∀ program ∈ A, Vetted program) (h : Upheld A R r) : Accounted A (after r) := by
  cases h with
  | ok sound _ => exact ⟨sound, vetted⟩
  | error sound => exact ⟨sound, vetted⟩

/-- What a program leaves, however it ended. -/
theorem Accounted.runAll (h : Accounted A w) (high : NodeId) (fuel : Nat) {program : List Stmt}
    (vetted : Vetted program) :
    Accounted (program :: A) (Watched.after (Watched.runAll fuel program
      ⟨(({ w.machine with nextNode := high } : Machine).bind program).2,
        .accepted program :: w.log⟩)) := by
  have start := h.accept high vetted
  have known : ∀ s ∈ program, Known (program :: A) s := fun s mem =>
    ⟨program, List.mem_cons_self, s, mem, Within.refl s⟩
  exact .after start.vetted (runAll_upholds start.proper fuel known _ start.sound)

/-- A text that runs is added to the programs, and any other changes nothing. -/
theorem Accounted.run (h : Accounted A w) (fuel : Nat) (source : String) :
    ∃ A', Accounted A' (w.run fuel source) := by
  unfold State.run
  dsimp only
  cases read : (compile source w.machine.nextNode).result with
  | error faults => exact ⟨A, h.sound.file _ _, h.vetted⟩
  | ok program =>
    dsimp only
    unfold State.runProgram
    dsimp only
    split
    · next clean => exact ⟨_, h.runAll _ fuel (vetted_of_clean read (List.isEmpty_iff.1 clean))⟩
    · exact ⟨A, h.sound.file _ _, h.vetted⟩

end Texts

/-- All that a session leaves behind comes from programs that were vetted. -/
theorem session_accounted (input : List UInt8) (sink : Sink) (clock : Nat → Float)
    (texts : List (Nat × String)) :
    ∃ A, Accounted A ((State.start input sink clock).session texts) := by
  have kept : ∀ (w : State), (∃ A, Accounted A w) → ∃ A, Accounted A (w.session texts) := by
    induction texts with
    | nil => exact fun _ h => h
    | cons text texts ih =>
      intro w h
      obtain ⟨A, accounted⟩ := h
      exact ih _ (accounted.run text.1 text.2)
  exact kept _ ⟨[], accounted_start input sink clock⟩

end Watched

end Lox
