import Lox.Proofs.Run.Capped
import Lox.Proofs.Run.Steady
import Lox.Proofs.Session.Traced

/-!
# Truncated output

A limit on the sink cuts the output of a text off and changes nothing else: the run either does not
come to the limit, or ends at the print that passes it (`run_truncated`).
-/

namespace Lox

open EStateM (Result)

theorem thenFlush_flushes {x : Eval Unit} {m : Machine}
    (flushes : (final (x m)).sink.failsFlush = false) : thenFlush x m = x m := by
  unfold thenFlush
  cases ended : x m with
  | ok a n =>
    rw [ended] at flushes
    exact if_neg (Bool.eq_false_iff.1 flushes)
  | error e n =>
    rw [ended] at flushes
    cases e with
    | outOfFuel => rfl
    | error e => exact if_neg (Bool.eq_false_iff.1 flushes)

/-! ### Two runs of a text -/

theorem limited_loaded (m : Machine) (limit : Nat) (source : String) (program : List Stmt) :
    (m.limited limit).loaded source program = (m.loaded source program).limited limit := rfl

/-- Two runs on the machine `m` with their moments, one with a sink that takes everything and one with
a sink that takes only `room` bytes more, and so `limit` bytes in all. -/
structure Truncated (m : Machine) (limit room : Nat) (full cut : Outcome Unit × Machine)
    (moments moments' : List Moment) : Prop where
  whole : full.2.sink.written.toList = m.sink.written.toList ++ outputOf moments
  written : cut.2.sink.written.toList = m.sink.written.toList ++ (outputOf moments).take room
  /-- If all of the output has room, the limit does not show. -/
  fits : (outputOf moments).length ≤ room →
    cut = (full.1, full.2.limited limit) ∧ moments' = moments.map (Moment.limited limit)
  /-- If not, the run comes in the same way to the first print that has no room, and ends there. -/
  stops : room < (outputOf moments).length →
    cut.1 = .failed (.stream .sinkFull) ∧ cut.1.code = 70 ∧
    ∃ before text k after, moments = before ++ ⟨.output text, k⟩ :: after ∧
      moments' = (before ++ [(⟨.output text, k⟩ : Moment)]).map (Moment.limited limit) ∧
      Overflows limit k text ∧
      cut.2 = { final (printLine text (k.limited limit)) with env := m.env }

/-- Nothing was printed. -/
theorem Truncated.idle {m n : Machine} (sink : n.sink = m.sink) (limit room : Nat)
    (outcome : Outcome Unit) : Truncated m limit room (outcome, n) (outcome, n.limited limit) [] [] where
  whole := (congrArg (·.written.toList) sink).trans (List.append_nil _).symm
  written := (congrArg (·.written.toList) sink).trans
    ((List.append_nil _).symm.trans (congrArg _ List.take_nil.symm))
  fits _ := ⟨rfl, rfl⟩
  stops more := absurd more (Nat.not_lt_zero _)

theorem ofResult_map {α : Type} (f : Machine → Machine) (r : Result Halt Machine α) :
    Outcome.ofResult (mapState f r) = ((Outcome.ofResult r).1, f (Outcome.ofResult r).2) := by
  cases r with
  | ok a n => rfl
  | error e n => cases e <;> rfl

theorem Cut.truncated {m n : Machine} {limit room : Nat} (bound : limit = m.sink.written.size + room)
    {r r' : Result Halt Machine Unit} {l l' : List Moment} (cut : Cut limit r l r' l')
    (sink : n.sink = m.sink) (outputs : Outputs n l (final r)) (env : (final r').env = m.env) :
    Truncated m limit room (Outcome.ofResult r) (Outcome.ofResult r') l l' := by
  have whole : (final r).sink.written.toList = m.sink.written.toList ++ outputOf l :=
    sink ▸ outputs.written
  have size : (final r).sink.written.size = m.sink.written.size + (outputOf l).length := by
    rw [← Array.length_toList, whole, List.length_append, Array.length_toList]
  cases cut with
  | through fits =>
    have room : (outputOf l).length ≤ room := by omega
    refine ⟨?_, ?_, fun _ => ⟨ofResult_map _ r, rfl⟩, fun more => absurd more (Nat.not_lt_of_le room)⟩
    · rw [ofResult_final, whole]
    · rw [ofResult_map, ofResult_final, List.take_of_length_le room]
      exact whole
  | @stopped before after k text env' moments overflows kept =>
    have exceeds : limit < (k.printed text).sink.written.toList.length := overflows.exceeds
    have more : room < (outputOf l).length := by
      have longer := kept.length_le
      have all : (final r).sink.written.toList.length = (final r).sink.written.size :=
        Array.length_toList
      omega
    refine ⟨?_, ?_, fun fits => ?_, fun _ => ⟨rfl, rfl, before, text, k, after, moments, rfl,
      overflows, ?_⟩⟩
    · rw [ofResult_final, whole]
    · show (final (printLine text (k.limited limit))).sink.written.toList = _
      rw [overflows.written, List.prefix_iff_eq_take.1 kept, List.take_take, whole, bound,
        Nat.min_eq_left (by omega), ← Array.length_toList, List.take_length_add_append]
    · exact absurd fits (Nat.not_le_of_lt more)
    · rw [← env]
      rfl

/-- A sink that takes only so many bytes more leaves that much of the output in the sink, and the
outcome is the same if that is all of it, and else an error of the sink. -/
theorem run_truncated {m : Machine} (boundless : m.sink.Boundless) (fuel : Nat) (source : String)
    (room : Nat) :
    Truncated m (m.sink.written.size + room) room (m.run fuel source)
      ((m.limited (m.sink.written.size + room)).run fuel source) (m.trace fuel source)
      ((m.limited (m.sink.written.size + room)).trace fuel source) := by
  generalize bound : m.sink.written.size + room = limit
  cases read : (compile source m.nextNode).result with
  | error faults =>
    obtain ⟨full, trace⟩ := run_unread read fuel
    obtain ⟨cut, trace'⟩ := run_unread (m := m.limited limit) read fuel
    rw [full, cut, trace, trace']
    exact .idle (m := m) (n := { m with nextNode := (compile source m.nextNode).nextId }) rfl
      limit room _
  | ok program =>
    by_cases clean : (Binding.program program).faults = []
    · have env := run_env (m.limited limit) fuel source
      obtain ⟨outputs, cut⟩ := runAll_cut limit fuel program (m := m.loaded source program) boundless
      obtain ⟨full, trace⟩ := run_loaded read clean fuel
      obtain ⟨capped, trace'⟩ := run_loaded (m := m.limited limit) read clean fuel
      rw [limited_loaded] at capped trace'
      rw [capped, ofResult_thenFlush] at env
      have cut := cut (bound ▸ Nat.le_add_right _ _)
      rw [full, capped, trace, trace', thenFlush_flushes outputs.boundless.flushes,
        thenFlush_flushes (cut.flushes outputs.boundless.flushes)]
      exact cut.truncated (n := m.loaded source program) bound.symm rfl outputs env
    · obtain ⟨full, trace⟩ := run_misbound read clean fuel
      obtain ⟨cut, trace'⟩ := run_misbound (m := m.limited limit) read clean fuel
      rw [full, cut, trace, trace']
      exact .idle (m := m) (n := m.loaded source program) rfl limit room _

/-- Four bytes are the first line and the first letter of the second one. -/
theorem run_truncated_amid :
    let m := Machine.start [] .unlimited fun _ => 0
    let cut := m.limited (m.sink.written.size + 4)
    let source := "fun f() \x7b print \"ab\"; print \"cd\"; print \"ef\"; \x7d f();"
    m.sink.Boundless ∧
      Truncated m (m.sink.written.size + 4) 4 (m.run 9 source) (cut.run 9 source) (m.trace 9 source)
        (cut.trace 9 source) ∧
      outputOf (m.trace 9 source) = "ab\ncd\nef\n".toUTF8.data.toList ∧
      (cut.run 9 source).2.sink.written.toList = "ab\nc".toUTF8.data.toList := by
  intro m cut source
  have boundless : m.sink.Boundless := ⟨rfl, rfl⟩
  exact ⟨boundless, run_truncated boundless 9 source 4, by decide +kernel, by decide +kernel⟩

end Lox
