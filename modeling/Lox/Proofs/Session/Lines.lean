import Lox.Proofs.Run.Draws
import Lox.Proofs.Session.Reachable
import Lox.Proofs.Session.Traced

/-!
# Lines of a session

Whoever asks for lines in a session, the host or its programs, gets the segments of the input one after
the other. None is lost and none comes twice, whatever becomes of those who ask (`lines_in_order`).
-/

namespace Lox

open Input (segments)

/-- What a host does with a machine. -/
inductive Step
  | run (fuel : Nat) (source : String)
  | evaluate (fuel : Nat) (source : String)
  | readLine

namespace Machine

variable (m : Machine)

def step : Step → Machine
  | .run fuel source => (m.run fuel source).2
  | .evaluate fuel source => (m.evaluate fuel source).2
  | .readLine => m.readLine.2

/-- The lines that are drawn in one step. -/
def stepDraws : Step → List Draw
  | .run fuel source => drawsOf (m.trace fuel source)
  | .evaluate fuel source => drawsOf (m.traceExpression fuel source)
  | .readLine => [.ofHost m]

/-- The machine after one step after the other. -/
def steps (steps : List Step) : Machine := steps.foldl step m

/-- The lines that are drawn in one step after the other. -/
def draws (m : Machine) : List Step → List Draw
  | [] => []
  | s :: ss => m.stepDraws s ++ (m.step s).draws ss

end Machine

/-! ### Steps -/

section Steps

variable (m : Machine)

theorem run_draws (fuel : Nat) (source : String) :
    Draws m.input (drawsOf (m.trace fuel source)) (m.run fuel source).2.input := by
  cases read : (compile source m.nextNode).result with
  | error faults =>
    obtain ⟨run, trace⟩ := run_unread read fuel
    rw [run, trace]
    exact .nil _
  | ok program =>
    by_cases clean : (Binding.program program).faults = []
    · obtain ⟨run, trace⟩ := run_loaded read clean fuel
      rw [run, trace, ofResult_thenFlush]
      exact runAll_draws fuel (m.loaded source program) program
    · obtain ⟨run, trace⟩ := run_misbound read clean fuel
      rw [run, trace]
      exact .nil _

theorem evaluateText_draws (fuel : Nat) (source : String) :
    Draws m.input (drawsOf (m.traceExpression fuel source)) (m.evaluate fuel source).2.input := by
  unfold Machine.evaluate Machine.traceExpression
  dsimp only
  cases (compileExpression source m.nextNode).result with
  | error faults => exact .nil _
  | ok e =>
    dsimp only
    rw [ofResult_final]
    exact evaluate_draws fuel
      { m with nextNode := (compileExpression source m.nextNode).nextId } e

theorem step_draws (s : Step) : Draws m.input (m.stepDraws s) (m.step s).input := by
  cases s with
  | run fuel source => exact run_draws m fuel source
  | evaluate fuel source => exact evaluateText_draws m fuel source
  | readLine => exact .single (Draw.ofHost_fair m)

theorem steps_draws (steps : List Step) : Draws m.input (m.draws steps) (m.steps steps).input := by
  induction steps generalizing m with
  | nil => exact .nil _
  | cons s ss ih => exact (step_draws m s).append (ih (m.step s))

end Steps

/-! ### Order -/

/-- A line that is drawn with the `k`-th segment, whatever the reply. -/
structure Draw.InOrder (input : List UInt8) (k : Nat) (d : Draw) : Prop where
  /-- That segment is all that is taken, and past the last one nothing is. -/
  takes : d.before = ((segments input)[k]?).getD [] ++ d.after
  /-- The later segments are left. -/
  leaves : d.after = ((segments input).drop (k + 1)).flatten
  /-- The reply is what there is to tell of that segment, or of the end of the input. -/
  told : ∃ line, Input.Holds (segments input)[k]? line ∧ d.reader.Told line d.reply

theorem Draws.inOrder {input rest : List UInt8} {ds : List Draw} (h : Draws input ds rest) {k : Nat}
    {d : Draw} (kth : ds[k]? = some d) : d.InOrder input k := by
  obtain ⟨⟨takes, told⟩, before⟩ := h.fair_getElem? kth
  have leaves : d.after = ((segments input).drop (k + 1)).flatten := by
    rw [← Input.flatten_segments d.after, takes, before, List.tail_drop]
  refine ⟨?_, leaves, ?_⟩
  · rw [← Input.flatten_segments d.before, before, leaves, List.drop_eq_getElem?_toList_append,
      List.flatten_append]
    cases (segments input)[k]? <;> simp
  · rw [before, List.head?_drop] at told
    exact told

/-- The `k`-th line that is drawn in a session is the `k`-th segment of the input, whoever asks for it
and whatever comes of it. What is left in the end are the segments behind those that were drawn. -/
theorem lines_in_order (m : Machine) (steps : List Step) :
    (∀ k (d : Draw), (m.draws steps)[k]? = some d → d.InOrder m.input k) ∧
      (m.steps steps).input = ((segments m.input).drop (m.draws steps).length).flatten := by
  have draws := steps_draws m steps
  refine ⟨fun k d kth => draws.inOrder kth, ?_⟩
  rw [← draws.segments_rest, Input.flatten_segments]

/-- A text, a line that is no text, a number and no number, for the host and for programs that fail on the
second and on the last of them; and then a call at the end of the input. -/
theorem lines_in_order_mixed :
    let m := Machine.start [97, 13, 10, 255, 10, 32, 55, 10, 120] .unlimited fun _ => 0
    let steps := [.readLine, .run 9 "fun f() \x7b return input.read(); \x7d print f();",
      .run 9 "print input.readNum(); input.readNum();", .evaluate 9 "input.read()"]
    segments m.input = [[97, 13, 10], [255, 10], [32, 55, 10], [120]] ∧
      (m.draws steps).map (·.reader) = [.host, .text, .number, .number, .text] ∧
      ∀ k < 5, ∃ d, (m.draws steps)[k]? = some d ∧ d.InOrder m.input k := by
  intro m steps
  have readers : (m.draws steps).map (·.reader) = [.host, .text, .number, .number, .text] := by
    decide +kernel
  refine ⟨rfl, readers, fun k below => ?_⟩
  have size : (m.draws steps).length = 5 := by
    rw [← List.length_map (·.reader), readers]
    rfl
  have kth := List.getElem?_eq_getElem (size ▸ below : k < (m.draws steps).length)
  exact ⟨_, kth, (lines_in_order m steps).1 k _ kth⟩

end Lox
