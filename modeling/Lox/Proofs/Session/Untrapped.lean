import Lox.Proofs.Run.Clearance
import Lox.Proofs.Run.Spared
import Lox.Proofs.Session.Inheritance
import Lox.Proofs.Session.Jumps
import Lox.Proofs.Session.Upright

/-!
# Faults that never occur

Whatever stands in place of the faults that only programs with faults come to, every text of a
session comes to the same (`internal_faults_unreachable`).
-/

namespace Lox

open EStateM (Result)

/-- The methods of superclasses that occur in the programs. -/
def supersOf (A : List (List Stmt)) : SuperSet := fun id keyword method =>
  ∃ program ∈ A, ∃ a, (a, .super id keyword method) ∈ programOccurrences program

theorem Watched.Accounted.checked {A : List (List Stmt)} {w : Watched.State}
    (h : Watched.Accounted A w) {program : List Stmt} (mem : program ∈ A) :
    Stmt.CheckedAll (supersOf A) program :=
  Stmt.checkedAll_of_occurrences _ false program (h.vetted program mem).checked
    fun a _ _ _ place => ⟨program, mem, a, place⟩

theorem Scoping.Related.fit {W : World} {w : Watched.State} {s : Lexical.State} (h : Related W w s)
    {A : List (List Stmt)} (accounted : Watched.Accounted A w) :
    Watched.Fit (supersOf A) w.log where
  called d env opened := by
    obtain ⟨s, ⟨program, mem, part⟩, declared⟩ := accounted.sound.called d env opened
    exact (part.checked (accounted.checked mem)).functions d declared
  supers id keyword method m known reached := by
    obtain ⟨program, mem, a, place⟩ := known
    have accepted := Watched.mem_acceptedOf.1 (accounted.sound.accepted.symm ▸ mem)
    obtain ⟨_, _, _, _, _, _, _, rfl, _, _, _, c, o, super⟩ :=
      h.superTaken accounted accepted place reached
    exact ⟨_, c, o, super.taken fun _ _ _ => throw .outOfFuel⟩

/-! ### Machines of sessions -/

theorem Machine.Upright.session {m : Machine} (h : m.Upright) (texts : List (Nat × String)) :
    (m.session texts).Upright := by
  induction texts generalizing m with
  | nil => exact h
  | cons text texts ih => exact ih (h.run text.1 text.2)

theorem Machine.Upright.rooted {m : Machine} (h : m.Upright) : Rooted m := by
  obtain ⟨outermost, inside⟩ := h.env
  cases env : m.env with
  | nil =>
    rw [env] at outermost
    cases outermost
  | cons frame outer => exact ⟨frame, outer, env, inside frame (env ▸ List.mem_cons_self)⟩

/-- No routine of lists misses its list. -/
theorem Machine.Upright.complete {m : Machine} (h : m.Upright) {fuel : Nat} {program : List Stmt}
    {w : Watched.State} (here : w.machine = m) :
    Watched.Complete (Watched.runAll fuel program w) := by
  have stood := runAll_stays fuel program m (.refl _) h
  have erased := Watched.runAll_erases fuel program w
  rw [here] at erased
  rw [← erased] at stood
  cases ran : Watched.runAll fuel program w with
  | ok a w' => trivial
  | error e w' =>
    rw [ran] at stood
    cases stood with
    | error upright grows proper => exact proper

/-- A program without faults comes to the same with traps. -/
theorem loaded_untrapped (trap : Trapped.Trap) (input : List UInt8) (sink : Sink)
    (clock : Nat → Float) (texts : List (Nat × String)) (fuel : Nat) {source : String}
    {program : List Stmt} {w : Watched.State}
    (session : w = (Watched.State.start input sink clock).session texts)
    (read : (compile source w.machine.nextNode).result = .ok program)
    (clean : (Binding.program program).faults = []) :
    Trapped.runAll trap fuel program (w.machine.loaded source program) =
      Lox.runAll fuel program (w.machine.loaded source program) := by
  obtain ⟨A, before⟩ := Watched.session_accounted input sink clock texts
  obtain ⟨W, s, related, -⟩ :=
    (Scoping.paused_start input sink clock).session (texts ++ [(fuel, source)])
  rw [← session] at before
  rw [Watched.State.session_concat, ← session, Watched.State.run_accepted read clean] at related
  have accounted := before.runAll (compile source w.machine.nextNode).nextId fuel
    (vetted_of_clean read (m := w.machine) clean)
  have upright : (w.machine.loaded source program).Upright := by
    have begun := (upright_start input sink clock).session texts
    have machine := Watched.session_erases (.start input sink clock) texts
    rw [← session] at machine
    exact ⟨machine ▸ begun.store, machine ▸ begun.env⟩
  have cleared := Watched.runAll_clears trap fuel (accounted.checked List.mem_cons_self)
    ⟨w.machine.loaded source program, .accepted program :: w.log⟩ upright.rooted
  rw [cleared.same (related.fit accounted) (upright.complete rfl), Watched.runAll_erases]

theorem session_untrapped (trap : Trapped.Trap) (input : List UInt8) (sink : Sink)
    (clock : Nat → Float) (texts : List (Nat × String)) (fuel : Nat) (source : String) :
    Trapped.run trap ((Machine.start input sink clock).session texts) fuel source =
      ((Machine.start input sink clock).session texts).run fuel source := by
  obtain ⟨w, session⟩ : ∃ w, w = (Watched.State.start input sink clock).session texts := ⟨_, rfl⟩
  have machine : w.machine = (Machine.start input sink clock).session texts :=
    session ▸ Watched.session_erases (.start input sink clock) texts
  rw [← machine]
  unfold Trapped.run Machine.run
  dsimp only
  cases read : (compile source w.machine.nextNode).result with
  | error faults => rfl
  | ok program =>
    unfold Trapped.runProgram Machine.runProgram
    dsimp only
    split
    · next clean =>
      have same := loaded_untrapped trap input sink clock texts fuel session read
        (List.isEmpty_iff.1 clean)
      exact congrArg Outcome.ofResult (thenFlush_congr same)
    · rfl

/-- Whatever traps are set in place of the faults that only programs with faults come to, every text
of a session comes to what it comes to with the faults themselves. So no text fails with one of the
four faults that nothing but traps stand for. -/
theorem internal_faults_unreachable :
    (∀ m fuel source, Trapped.run Trapped.plain m fuel source = m.run fuel source) ∧
    ∀ input sink clock texts fuel source,
      let m := (Machine.start input sink clock).session texts
      (∀ trap, Trapped.run trap m fuel source = m.run fuel source) ∧
        ∀ e, (m.run fuel source).1 = .failed e → ¬ e.Internal := by
  refine ⟨Trapped.run_plain, fun input sink clock texts fuel source => ?_⟩
  have untrapped := fun trap =>
    session_untrapped trap input sink clock texts fuel source
  refine ⟨untrapped, fun e failed => ?_⟩
  rw [← untrapped fun _ _ => .outOfFuel] at failed
  exact Trapped.run_spares (fun _ _ => id) _ fuel source failed

/-- A routine of a list that outlives the text it was looked up in, a `super` in a method, and an
operand that is no number. -/
theorem internal_faults_unreachable_operand :
    let m := (Machine.start [] .unlimited fun _ => 0).session
      [(5, "class Bag < List \x7b add(v) \x7b super.append(v); \x7d \x7d"),
        (5, "var b = Bag(); var put = b.append;")]
    ∃ e, (m.run 5 "put(true); b.add(nil); -b;").1 = .failed e ∧ ¬ e.Internal := by
  intro m
  have fails : ((m.run 5 "put(true); b.add(nil); -b;").1 matches .failed _) = true := by
    decide +kernel
  cases ran : (m.run 5 "put(true); b.add(nil); -b;").1 with
  | failed e => exact ⟨e, rfl, (internal_faults_unreachable.2 _ _ _ _ _ _).2 e ran⟩
  | finished | rejected | outOfFuel =>
    rw [ran] at fails
    cases fails

end Lox
