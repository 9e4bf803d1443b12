import Lox.Proofs.Scoping.Invocation
import Lox.Proofs.Scoping.Table

/-!
# Sessions in both runs

Before anything has run, the two states are related in the first world (`related_start`), and every
source text leaves them related: a rejected one, one that ran to its end and one that was cut short
(`Paused.run`).
-/

namespace Lox.Scoping

open Binding (Scope Site Origin Context Walk distance Settled Placed programSites stmts stmtsSites)
open Lexical (Names CellId Exec)
open Watched (Watch Event)

/-! ### The start -/

def World.start : World :=
  ⟨[], 1, [], Machine.supplied.map fun p => (globalFrame, p.1), []⟩

theorem supplied_same (W : World) {x : String} {v : Value}
    (found : Machine.supplied.reverse.lookup x = some v) : SameValue W v v :=
  sameValue_iff.2 (supplied_like W.likeness found)

theorem frames_start (input : List UInt8) (sink : Sink) (clock : Nat → Float) :
    Frames World.start Machine.startStore (.start input sink clock) where
  size := rfl
  positive := Nat.zero_lt_one
  top := Nat.zero_lt_one
  globals x := by
    show Option.Rel _ (Machine.startStore.getHere? globalFrame x)
      (Machine.startStore.getHere? globalFrame x)
    rw [startStore_getHere?, if_pos rfl]
    cases found : Machine.supplied.reverse.lookup x with
    | none => exact .none
    | some v => exact .some (supplied_same _ found)
  located f x mem := absurd mem List.not_mem_nil
  bound f x := by
    rw [startStore_getHere?]
    by_cases isGlobal : f = globalFrame
    · rw [if_pos isGlobal, List.lookup_isSome_iff]
      refine ⟨fun mem => ?_, fun ⟨p, known, same⟩ => ?_⟩
      · obtain ⟨p, known, same⟩ := List.mem_map.1 mem
        exact ⟨p, List.mem_reverse.2 known, beq_iff_eq.2 (Prod.mk.inj same).2.symm⟩
      · exact List.mem_map.2
          ⟨p, List.mem_reverse.1 known, Prod.ext isGlobal.symm (beq_iff_eq.1 same).symm⟩
    · rw [if_neg isGlobal]
      refine ⟨fun mem => ?_, fun none => absurd none (by simp)⟩
      obtain ⟨p, -, same⟩ := List.mem_map.1 mem
      exact absurd (Prod.mk.inj same).1.symm isGlobal
  distinct := List.nodup_nil
  count := rfl
  labels c f x found := absurd found (by simp [World.start])
  this f v other found := by
    rw [startStore_getHere?, if_neg other] at found
    exact absurd found (by simp)

/-- Nothing has run in either run. -/
theorem related_start (input : List UInt8) (sink : Sink) (clock : Nat → Float) :
    Related World.start (.start input sink clock) (.start input sink clock) where
  shared := by
    refine ⟨rfl, fun i => ?_, rfl, rfl, rfl, rfl, rfl⟩
    show Option.Rel _ ((#[⟨∅, #[]⟩] : Array Object)[i]?) ((#[⟨∅, #[]⟩] : Array Object)[i]?)
    cases i with
    | zero => exact .some ⟨fun x => by simp, .nil⟩
    | succ i => exact .none
  frames := frames_start input sink clock
  logged := by
    refine ⟨rfl, rfl, List.nodup_nil, fun p mem => absurd mem List.not_mem_nil,
      fun id name m mem => absurd mem List.not_mem_nil, ?_⟩
    exact ⟨fun site known => absurd known List.not_mem_nil, List.nodup_nil,
      fun site known => absurd known List.not_mem_nil, fun id _ => rfl⟩

/-! ### Programs -/

section Programs

variable {W : World} {w : Watched.State} {s : Lexical.State} {high : Nat} {program : List Stmt}

/-- What the log says does not depend on the numbers of nodes to come. -/
theorem Related.file (h : Related W w s) {m : Machine} (filed : Filed W.sites m)
    (same : { w.machine with distances := m.distances, nextNode := m.nextNode } = m) :
    Related W { w with machine := m } s := by
  rw [← same]
  exact ⟨{ h.shared with }, h.frames.keep rfl rfl rfl, { h.logged with filed := by rwa [same] }⟩

theorem Related.accept (h : Related W w s) (le : w.machine.nextNode ≤ high)
    (good : Fresh w.machine.nextNode high (Stmt.idsAll program))
    (clean : (Binding.program program).faults = []) :
    Related (W.accept program)
      ⟨(({ w.machine with nextNode := high } : Machine).bind program).2, .accepted program :: w.log⟩
      s where
  shared := { h.shared.mono (W.le_accept program) with }
  frames := (h.frames.accept program).keep rfl rfl rfl
  logged := by
    have log := h.logged
    refine ⟨congrArg (programSites program ++ ·) log.sites, log.opened, log.once, log.older,
      fun id name m mem => ?_, log.filed.accept le good clean⟩
    rcases List.mem_cons.1 mem with new | old
    · nomatch new
    · obtain ⟨site, known, sameId, sameName, parity, resolved⟩ := log.reached id name m old
      exact ⟨site, List.mem_append_right _ known, sameId, sameName,
        parity.mono (List.subset_cons_self _ _), resolved⟩

/-- The statements of a program come to the same in both runs. -/
theorem runAll_sim (fuel : Nat) : (ss : List Stmt) → (w : Walk) → (W : World) →
    (scope : Lexical.Scope) → Stands W .program w.scopes [] scope globalEnv →
    stmtsSites [] .program w ss ⊆ W.sites → (stmts .program w ss).faults = [] →
    Stmt.ProperAll ss →
    Sim (some globalFrame) W globalEnv (Watched.runAll fuel ss) (Lexical.runAll fuel scope ss)
      fun _ _ _ => True
  | [], _, _, _, _, _, _, _ => Sim.pure trivial
  | s :: ss, w, W, scope, h, sites, clean, proper => by
    obtain ⟨mine, others⟩ := List.append_subset.1 sites
    have first := (Binding.stmts_walked [] .program (Binding.stmt .program w s) ss).clean clean
    apply (execute_sim (invoke_sim fuel) fuel s .program w [] W scope globalFrame [] h mine first
      proper.1).bind
    intro W₁ a r grow outcome
    obtain ⟨_, stands⟩ := outcome
    exact runAll_sim fuel ss _ W₁ r.2 stands (grow.le.covers others) clean proper.2

/-- At top level nothing is in a scope. -/
theorem stands_top (W : World) (positive : globalFrame < W.size) :
    Stands W .program [] [] .top globalEnv := by
  refine ⟨⟨⟨rfl, rfl, rfl, nofun, fun f mem => ?_, nofun, fun x _ => rfl, nofun, nofun, nofun⟩,
    nofun⟩, rfl, nofun, Settled.nil⟩
  rw [List.mem_singleton.1 mem]
  exact positive

/-- A program that is accepted comes to the same in both runs. -/
theorem program_agree (h : Related W w s) (back : w.machine.env = globalEnv)
    (le : w.machine.nextNode ≤ high)
    (good : Fresh w.machine.nextNode high (Stmt.idsAll program) ∧ Stmt.ProperAll program)
    (clean : (Binding.program program).faults = []) (fuel : Nat) :
    Agree (some globalFrame) (W.accept program) globalEnv (fun _ _ _ => True)
      (Watched.runAll fuel program
        ⟨(({ w.machine with nextNode := high } : Machine).bind program).2,
          .accepted program :: w.log⟩)
      (Lexical.runAll fuel .top program s) :=
  runAll_sim fuel program .start (W.accept program) .top
    (stands_top _ h.frames.positive) (List.subset_append_left _ _)
    (Binding.program_eq program ▸ clean) good.2 _ _ (h.accept le good.1 clean) back

end Programs

/-! ### Source texts -/

theorem compile_nextId_le (source : String) (nextId : NodeId) :
    nextId ≤ (compile source nextId).nextId :=
  Grammar.parse_nextId_le (tokenize source).1 nextId

theorem parse_of_compile {source : String} {nextId : NodeId} {program : List Stmt}
    (read : (compile source nextId).result = .ok program) :
    (Grammar.parse (tokenize source).1 nextId).result = .ok program := by
  unfold compile at read
  dsimp only at read
  split at read
  · next body parsed =>
    split at read
    · obtain rfl := Except.ok.inj read
      exact parsed
    · exact absurd read (by simp)
  · exact absurd read (by simp)

/-- A program that was read has the shapes and the numbers of a program. -/
theorem compile_good {source : String} {nextId : NodeId} {program : List Stmt}
    (read : (compile source nextId).result = .ok program) :
    Fresh nextId (compile source nextId).nextId (Stmt.idsAll program) ∧ Stmt.ProperAll program :=
  have good := Grammar.parse_good (parse_of_compile read)
  ⟨good.1, good.2 (tokenize_spelled source)⟩

/-- Between source texts the globals are in reach. -/
def Paused (w : Watched.State) : Prop :=
  ∃ W s, Related W w s ∧ w.machine.env = globalEnv

/-- A program leaves the states related, whether or not it runs to its end. -/
theorem Paused.runProgram {w : Watched.State} (h : Paused w) {high : Nat} {program : List Stmt}
    (le : w.machine.nextNode ≤ high)
    (good : Fresh w.machine.nextNode high (Stmt.idsAll program) ∧ Stmt.ProperAll program)
    (fuel : Nat) :
    Paused (Watched.State.runProgram
      { w with machine := { w.machine with nextNode := high } } fuel program) := by
  obtain ⟨W, s, related, back⟩ := h
  unfold Watched.State.runProgram
  dsimp only
  split
  · next clean =>
    have done := program_agree related back le good (List.isEmpty_iff.1 clean) fuel
    generalize Watched.runAll fuel program _ = r at done ⊢
    generalize Lexical.runAll fuel .top program s = t at done
    cases done with
    | ok _ related back _ => exact ⟨_, _, related, back⟩
    | error _ related back => exact ⟨_, _, related, back⟩
  · -- A rejected program leaves distances behind, but only under numbers of its own.
    exact ⟨W, s, related.file (related.logged.filed.reject le good.1) rfl, back⟩

theorem Paused.run {w : Watched.State} (h : Paused w) (fuel : Nat) (source : String) :
    Paused (w.run fuel source) := by
  have le := compile_nextId_le source w.machine.nextNode
  unfold Watched.State.run
  dsimp only
  cases read : (compile source w.machine.nextNode).result with
  | ok program => exact h.runProgram le (compile_good read) fuel
  | error faults =>
    obtain ⟨W, s, related, back⟩ := h
    exact ⟨W, s, related.file (related.logged.filed.renumber le) rfl, back⟩

/-- All source texts leave the states related. -/
theorem Paused.session {w : Watched.State} (h : Paused w) (texts : List (Nat × String)) :
    Paused (w.session texts) := by
  induction texts generalizing w with
  | nil => exact h
  | cons text texts ih => exact ih (h.run text.1 text.2)

theorem paused_start (input : List UInt8) (sink : Sink) (clock : Nat → Float) :
    Paused (.start input sink clock) :=
  ⟨World.start, .start input sink clock, related_start input sink clock, rfl⟩

end Lox.Scoping
