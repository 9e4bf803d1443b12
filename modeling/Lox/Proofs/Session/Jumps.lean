import Lox.Proofs.Run.Landing
import Lox.Proofs.Session.Pieces
import Lox.Proofs.Session.Vetted

/-!
# Jumps of programs

In a program without faults every `break` ends the innermost loop around it and every `return` its
own call, and neither comes out of anything else (`jumps_contained`).
-/

namespace Lox

/-- The machine on which a program that was read starts to run. -/
def Machine.loaded (m : Machine) (source : String) (program : List Stmt) : Machine :=
  (({ m with nextNode := (compile source m.nextNode).nextId } : Machine).bind program).2

/-- What becomes of jumps when a text runs. -/
structure Contained (w : Watched.State) (fuel : Nat) (source : String) (program : List Stmt) :
    Prop where
  /-- The text runs as this program. -/
  runs : w.machine.run fuel source =
    Outcome.ofResult (thenFlush (runAll fuel program) (w.machine.loaded source program))
  /-- On no machine does a statement of the program end with a jump. -/
  statements : ∀ s ∈ program, ∀ call laps, Yields (execute call laps s) (· = .normal)
  loops : ∀ condition body call laps, Yields (execute call laps (.while condition body)) (· ≠ .break)
  /-- The body of a function that was called by then ends with no `break`. -/
  calls : ∀ d env, .opened (.call d) env ∈ (w.run fuel source).log →
    ∀ call laps, Yields (executeAll call laps d.body) (· ≠ .break)
  /-- The run is the same if each jump leaps to the end of its own loop or call, past all others. -/
  leaps : Leap.runAll fuel program (w.machine.loaded source program) =
    Leap.plain (runAll fuel program (w.machine.loaded source program))

namespace Watched

theorem Accounted.formed {A : List (List Stmt)} {w : State} (h : Accounted A w) : Closed w.log := by
  intro d env opened
  obtain ⟨s, ⟨program, mem, part⟩, declared⟩ := h.sound.called d env opened
  obtain ⟨inLoop, formed⟩ := part.formed (h.vetted program mem).formed
  exact formed.functions d declared

theorem State.session_concat (w : State) (texts : List (Nat × String)) (fuel : Nat)
    (source : String) : w.session (texts ++ [(fuel, source)]) = (w.session texts).run fuel source :=
  List.foldl_concat ..

theorem State.run_accepted {w : State} {fuel : Nat} {source : String} {program : List Stmt}
    (read : (compile source w.machine.nextNode).result = .ok program)
    (clean : (Binding.program program).faults = []) :
    w.run fuel source =
      after (runAll fuel program ⟨w.machine.loaded source program, .accepted program :: w.log⟩) := by
  unfold State.run
  dsimp only
  rw [read]
  exact if_pos (List.isEmpty_iff.2 clean)

theorem landing_value {α : Type} (r : EStateM.Result Halt State α) :
    landing value r = Leap.plain (forget r) := by
  cases r <;> rfl

end Watched

/-- In every session, jumps are contained in the run of every program without faults. -/
theorem jumps_contained (input : List UInt8) (sink : Sink) (clock : Nat → Float)
    (texts : List (Nat × String)) (fuel : Nat) {source : String} {program : List Stmt}
    (read : (compile source
      ((Watched.State.start input sink clock).session texts).machine.nextNode).result = .ok program)
    (clean : (Binding.program program).faults = []) :
    Contained ((Watched.State.start input sink clock).session texts) fuel source program := by
  obtain ⟨A, accounted⟩ :=
    Watched.session_accounted input sink clock (texts ++ [(fuel, source)])
  rw [Watched.State.session_concat] at accounted
  generalize (Watched.State.start input sink clock).session texts = w at read accounted
  have closed := accounted.formed
  have vetted : Vetted program := vetted_of_clean read (m := w.machine) clean
  have normal : ∀ s ∈ program, ∀ call laps, Yields (execute call laps s) (· = .normal) :=
    fun s top call laps => execute_normal call laps vetted.formed vetted.lawful.returns top
  refine ⟨?_, normal, fun condition body call laps => loop_unbroken _ _ _,
    fun d env opened call laps => executeAll_unbroken call laps (closed d env opened), ?_⟩
  · exact Machine.run_eq w.machine fuel source ▸ runParsed_accepted read clean
  · have landed := Watched.runAll_lands fuel (fun s top => normal s top _ _)
      ⟨w.machine.loaded source program, .accepted program :: w.log⟩
    rw [Watched.State.run_accepted read clean] at closed
    rw [landed.same closed, Watched.landing_value, Watched.runAll_erases]

def Watched.Event.isCall : Event → Bool
  | .opened (.call _) _ => true
  | _ => false

theorem Watched.Event.of_isCall {event : Event} (h : event.isCall = true) :
    ∃ d env, event = .opened (.call d) env := by
  unfold isCall at h
  split at h
  · exact ⟨_, _, rfl⟩
  · cases h

/-- A loop with a loop in a function that is called in a loop. -/
theorem jumps_contained_nested :
    let w := (Watched.State.start [] .unlimited fun _ => 0).session
      [(9, "fun f(a) \x7b while (a) \x7b while (a) break; return a; \x7d \x7d")]
    let source := "while (true) \x7b if (f(true)) break; \x7d"
    (∃ d env, .opened (.call d) env ∈ (w.run 9 source).log) ∧
    ∃ program, (compile source w.machine.nextNode).result = .ok program ∧
      (Binding.program program).faults = [] ∧ Contained w 9 source program := by
  intro w source
  have calls : (w.run 9 source).log.any Watched.Event.isCall = true := by decide +kernel
  obtain ⟨event, mem, call⟩ := List.any_eq_true.1 calls
  obtain ⟨d, env, rfl⟩ := Watched.Event.of_isCall call
  have accepted : ((compile source w.machine.nextNode).result.toOption.any fun program =>
      (Binding.program program).faults.isEmpty) = true := by decide +kernel
  obtain ⟨program, read, clean⟩ := (compile_accepts_iff source _).2 accepted
  exact ⟨⟨d, env, mem⟩, program, read, clean, jumps_contained [] .unlimited _ _ 9 read clean⟩

end Lox
