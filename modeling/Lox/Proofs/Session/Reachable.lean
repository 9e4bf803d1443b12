import Lox.Proofs.Session.Twin

/-!
# Machines between texts

A machine that some session leads to knows none of the nodes to come, and so goes on in step with
itself (`Machine.Reachable.orderly`). Twins answer all later texts in the same way
(`Twin.answers`).
-/

namespace Lox

open EStateM (Result)

namespace Machine

/-- What a session can lead to. Numbers of nodes are given out elsewhere, too. -/
inductive Reachable : Machine → Prop
  | start (input : List UInt8) (sink : Sink) (clock : Nat → Float) :
      Reachable (.start input sink clock)
  | run {m : Machine} (before : Reachable m) (fuel : Nat) (source : String) :
      Reachable (m.run fuel source).2
  | evaluate {m : Machine} (before : Reachable m) (fuel : Nat) (source : String) :
      Reachable (m.evaluate fuel source).2
  | readLine {m : Machine} (before : Reachable m) : Reachable m.readLine.2
  | elsewhere {m : Machine} (before : Reachable m) {high : NodeId} (le : m.nextNode ≤ high) :
      Reachable { m with nextNode := high }

/-- What becomes of texts that are run one after the other: each outcome with the output so far and
the input that is left. -/
def answers (m : Machine) : List (Nat × String) → List (Outcome Unit × Sink × List UInt8)
  | [] => []
  | (fuel, source) :: texts =>
    let (outcome, m) := m.run fuel source
    (outcome, m.sink, m.input) :: m.answers texts

theorem answers_cons (m : Machine) (fuel : Nat) (source : String) (texts : List (Nat × String)) :
    m.answers ((fuel, source) :: texts) =
      ((m.run fuel source).1, (m.run fuel source).2.sink, (m.run fuel source).2.input) ::
        (m.run fuel source).2.answers texts := rfl

/-- The machine is its own twin. -/
def Orderly (m : Machine) : Prop := ∃ P : Pairing, P.lines = Eq ∧ Twin P m m

theorem Orderly.twin {m : Machine} (h : m.Orderly) {lines : Nat → Nat → Prop}
    (refl : ∀ l, lines l l) : ∃ ids, Twin ⟨ids, lines⟩ m m := by
  obtain ⟨P, same, twin⟩ := h
  refine ⟨P.ids, twin.relax fun l l' go => ?_⟩
  rw [same] at go
  exact go ▸ refl l

end Machine

/-! ### Steps -/

section Steps

variable {P : Pairing} {m m' : Machine}

theorem Twin.run (h : Twin P m m') (lines : P.lines = Eq) (fuel : Nat) (source : String) :
    Concur Eq (m.run fuel source) (m'.run fuel source) := by
  rw [Machine.run_eq, Machine.run_eq, ← lines]
  refine h.runParsed fuel (compile_numbered source _) (compile_numbered source _) ?_
  rw [lines]
  exact compile_paired source _ _

theorem Twin.answers (h : Twin P m m') (lines : P.lines = Eq) (texts : List (Nat × String)) :
    m.answers texts = m'.answers texts := by
  induction texts generalizing P m m' with
  | nil => rfl
  | cons text texts ih =>
    obtain ⟨same, Q, lines, after⟩ := h.run lines text.1 text.2
    rw [Machine.answers_cons, Machine.answers_cons, same.eq, after.sink, after.input,
      ih after lines]

theorem ofResult_final {α : Type} (r : Result Halt Machine α) :
    (Outcome.ofResult r).2 = final r := by
  cases r with
  | ok a n => rfl
  | error e n => cases e <;> rfl

theorem Twin.evaluate (h : Twin P m m') (lines : P.lines = Eq) (fuel : Nat) (source : String) :
    ∃ Q : Pairing, Q.lines = Eq ∧ Twin Q (m.evaluate fuel source).2
      (m'.evaluate fuel source).2 := by
  have numbered := compileExpression_numbered source m.nextNode
  have numbered' := compileExpression_numbered source m'.nextNode
  have read := compileExpression_paired source m.nextNode m'.nextNode
  have fresh := numbered.fresh
  have fresh' := numbered'.fresh
  have next := h.advance (advances_next numbered.le) (advances_next numbered'.le)
  unfold Machine.evaluate
  dsimp only
  generalize (compileExpression source m.nextNode).result = r at read fresh ⊢
  generalize (compileExpression source m'.nextNode).result = r' at read fresh' ⊢
  cases read with
  | error faults => exact ⟨P, lines, next⟩
  | @ok e e' same =>
    have paired : PairedExpr (P.extend e.ids e'.ids) e e' := by
      refine PairedExpr.along (P := .ofLines Eq) (fun l l' go => ?_) e same
        (List.forall₂_iff_zip.2 ⟨(PairedExpr.ids e same).length_eq, fun {_ _} mem => .inr mem⟩)
      show P.lines l l'
      rwa [lines]
    have new := fresh e rfl
    have new' := fresh' e' rfl
    -- The table has nothing for the nodes of an expression that stands alone.
    have extended : Twin (P.extend e.ids e'.ids) _ _ :=
      next.extend (fun i mine => (new.between i mine).2) (fun j mine => (new'.between j mine).2)
        fun i j go => (h.unused i (new.between i (List.of_mem_zip go).1).1).trans
          (h.unused' j (new'.between j (List.of_mem_zip go).2).1).symm
    refine ⟨P.extend e.ids e'.ids, lines, ?_⟩
    show Twin _ (Outcome.ofResult _).2 (Outcome.ofResult _).2
    rw [ofResult_final, ofResult_final]
    exact extended.keep
      (evaluate_tandem (invoke_tandem fuel) e paired _ _ extended.toPairedMachine).final
      (evaluate_follows (invoke_follows fuel) e _) (evaluate_follows (invoke_follows fuel) e' _)

theorem Twin.readLine (h : Twin P m m') : Twin P m.readLine.2 m'.readLine.2 :=
  { h with input := congrArg (fun input => (Input.readLine input).2) h.input }

theorem twin_start (input : List UInt8) (sink : Sink) (clock : Nat → Float) :
    Twin ⟨fun _ _ => False, Eq⟩ (.start input sink clock) (.start input sink clock) where
  toLikeState := likeState_start _ input sink clock
  frames := likeFrames_start _
  env := rfl
  distances _ _ go := go.elim
  bounded _ _ go := go.elim
  unused _ _ := rfl
  unused' _ _ := rfl

end Steps

/-! ### Sessions -/

theorem Machine.Reachable.orderly {m : Machine} (h : m.Reachable) : m.Orderly := by
  induction h with
  | start input sink clock => exact ⟨_, rfl, twin_start input sink clock⟩
  | run before fuel source ih =>
    obtain ⟨P, lines, twin⟩ := ih
    exact (twin.run lines fuel source).2
  | evaluate before fuel source ih =>
    obtain ⟨P, lines, twin⟩ := ih
    exact twin.evaluate lines fuel source
  | readLine before ih =>
    obtain ⟨P, lines, twin⟩ := ih
    exact ⟨P, lines, twin.readLine⟩
  | elsewhere before le ih =>
    obtain ⟨P, lines, twin⟩ := ih
    exact ⟨P, lines, twin.advance (advances_next le) (advances_next le)⟩

end Lox
