import Lox.Proofs.Binding.Paired
import Lox.Proofs.Grammar.Numbering
import Lox.Proofs.Grammar.Parallel
import Lox.Session

/-!
# Reading texts in step

Tokens in step are read to trees in step or rejected for the same faults (`parse_paired`), so that
the faults of a source text do not depend on where the numbers of its nodes start
(`compile_paired`).
-/

namespace Lox

open EStateM (Result)

/-! ### Only lines of their own -/

section Equality

theorem PairedToken.eq {t t' : Token} (h : PairedToken (.ofLines Eq) t t') : t = t' := by
  obtain ⟨kind, lexeme, line⟩ := t
  obtain ⟨kind', lexeme', line'⟩ := t'
  obtain ⟨rfl, rfl, same⟩ := h
  obtain rfl : line = line' := same
  rfl

theorem PairedDiagnostic.eq {d d' : Diagnostic} (h : PairedDiagnostic (.ofLines Eq) d d') :
    d = d' := by
  cases h with
  | lexical place fault =>
    obtain rfl := place
    rfl
  | grammatical place fault => rw [place.eq]
  | binding place fault => rw [place.eq]

theorem paired_faults {ds ds' : List Diagnostic}
    (h : List.Forall₂ (PairedDiagnostic (.ofLines Eq)) ds ds') : ds = ds' :=
  List.forall₂_eq_eq_eq ▸ h.imp fun _ _ => PairedDiagnostic.eq

end Equality

/-! ### Parses -/

/-- Trees in step or the same faults. -/
inductive PairedReading {α : Type} (lines : Nat → Nat → Prop) (R : α → α → Prop) :
    Except (List Diagnostic) α → Except (List Diagnostic) α → Prop
  | ok {tree tree' : α} (same : R tree tree') : PairedReading lines R (.ok tree) (.ok tree')
  | error {faults faults' : List Diagnostic}
      (same : List.Forall₂ (PairedDiagnostic (.ofLines lines)) faults faults') :
      PairedReading lines R (.error faults) (.error faults')

namespace Grammar

variable {lines : Nat → Nat → Prop}

/-- The end marker that stands in for a missing one has a line, too. -/
theorem PairedState.start {ts ts' : List Token}
    (h : List.Forall₂ (PairedToken (.ofLines lines)) ts ts')
    (missing : lines missingEnd.line missingEnd.line) (nextId nextId' : NodeId) :
    PairedState lines (.start ts nextId) (.start ts' nextId') := by
  refine ⟨?_, ?_, .nil⟩
  · show List.Forall₂ _ (ts.takeWhile _) (ts'.takeWhile _)
    induction h with
    | nil => exact .nil
    | @cons t t' ts ts' first _ ih =>
      rw [List.takeWhile_cons, List.takeWhile_cons, ← first.kind]
      split
      · exact .cons first ih
      · exact .nil
  · show PairedToken _ ((ts.find? _).getD missingEnd) ((ts'.find? _).getD missingEnd)
    induction h with
    | nil => exact ⟨rfl, rfl, missing⟩
    | @cons t t' ts ts' first _ ih =>
      rw [List.find?_cons, List.find?_cons, ← first.kind]
      split
      · exact first
      · exact ih

theorem ofResult_paired {α : Type} {R : α → α → Prop} {r r' : Result Failure State α}
    (h : ParallelResult lines R r r') :
    PairedReading lines R (Parsed.ofResult r).result (Parsed.ofResult r').result := by
  cases h with
  | @ok tree tree' t t' state same =>
    have silent : t.noted.isEmpty = t'.noted.isEmpty := by
      have noted := state.noted
      generalize t.noted = ds at noted ⊢
      generalize t'.noted = ds' at noted ⊢
      cases noted <;> rfl
    simp only [Parsed.ofResult_ok, silent]
    split
    · exact .ok same
    · exact .error state.noted
  | fault state cause =>
    exact .error (List.rel_append state.noted (.cons (.grammatical state.peek cause) .nil))
  | outOfFuel state => exact .error state.noted

theorem parallel_wholeExpression (fuel : Nat) :
    Parallel lines (wholeExpression fuel) (wholeExpression fuel) (Matching lines) :=
  (parallel_expression fuel).bind fun _ _ same => Parallel.atEnd fun _ =>
    Parallel.ite (Parallel.notingHere (Parallel.pure same)) (Parallel.pure same)

section Parses

variable {ts ts' : List Token} (h : List.Forall₂ (PairedToken (.ofLines lines)) ts ts')
  (missing : lines missingEnd.line missingEnd.line) (nextId nextId' : NodeId)

include h missing

theorem parse_paired :
    PairedReading lines (PairedBody (.ofLines lines)) (parse ts nextId).result
      (parse ts' nextId').result := by
  rw [parse_eq, parse_eq, ← h.length_eq]
  exact ofResult_paired (parallel_program _ _ _ (.start h missing nextId nextId'))

theorem parseExpression_paired :
    PairedReading lines (PairedExpr (.ofLines lines)) (parseExpression ts nextId).result
      (parseExpression ts' nextId').result := by
  rw [parseExpression_eq, parseExpression_eq, ← h.length_eq]
  exact ofResult_paired (parallel_wholeExpression _ _ _ (.start h missing nextId nextId'))

end Parses

/-! ### Numbers of single expressions -/

theorem yields_wholeExpression {checked : Prop} (fuel : Nat) :
    Yields checked (wholeExpression fuel) (GoodExpr checked) := by
  apply ((yields_expression fuel).bind fun e => Yields.looking (fun s => s.rest.isEmpty) fun _ =>
    Yields.ite (Yields.notingHere (Yields.pure e)) (Yields.pure e)).mono
  intro low high e numbered
  obtain ⟨mid, e', -, -, good, rfl, rfl⟩ := numbered
  exact good

theorem parseExpression_nextId_le (tokens : List Token) (nextId : NodeId) :
    nextId ≤ (parseExpression tokens nextId).nextId := by
  have later := (reads_wholeExpression (tokens.length + 1)).later (State.start tokens nextId)
  rw [parseExpression_eq]
  cases run : wholeExpression (tokens.length + 1) (State.start tokens nextId) with
  | ok tree s =>
    rw [run] at later
    exact later.nextId
  | error e s =>
    rw [run] at later
    cases e <;> exact later.nextId

theorem parseExpression_good {tokens : List Token} {nextId : NodeId} {tree : Expr}
    (parsed : (parseExpression tokens nextId).result = .ok tree) :
    GoodExpr (∀ t ∈ tokens, t.Spelled) nextId (parseExpression tokens nextId).nextId tree := by
  have start : (∀ t ∈ tokens, t.Spelled) → ∀ t ∈ (State.start tokens nextId).rest, t.Spelled :=
    fun spelled t mem => spelled t ((List.takeWhile_prefix _).subset mem)
  rw [parseExpression_eq] at parsed ⊢
  cases run : wholeExpression (tokens.length + 1) (State.start tokens nextId) with
  | ok tree' s =>
    obtain ⟨-, -, good⟩ := yields_wholeExpression _ _ _ _ start run
    rw [run] at parsed
    rw [Parsed.ofResult_ok] at parsed
    dsimp only at parsed
    split at parsed
    · cases parsed
      exact good
    · cases parsed
  | error e s =>
    rw [run] at parsed
    cases e <;> cases parsed

end Grammar

/-! ### Source texts -/

theorem tokens_paired (tokens : List Token) :
    List.Forall₂ (PairedToken (.ofLines Eq)) tokens tokens :=
  List.forall₂_same.2 fun t _ => .refl (fun _ => rfl) t

theorem faults_paired (faults : List Diagnostic) :
    List.Forall₂ (PairedDiagnostic (.ofLines Eq)) faults faults :=
  List.forall₂_same.2 fun d _ => .refl (fun _ => rfl) d

/-- The numbers of nodes decide nothing. -/
theorem Grammar.parse_renumbered (tokens : List Token) (nextId nextId' : NodeId) :
    PairedReading Eq (PairedBody (.ofLines Eq)) (parse tokens nextId).result
      (parse tokens nextId').result :=
  parse_paired (tokens_paired tokens) rfl nextId nextId'

theorem compile_paired (source : String) (nextId nextId' : NodeId) :
    PairedReading Eq (PairedBody (.ofLines Eq)) (compile source nextId).result
      (compile source nextId').result := by
  have parsed := Grammar.parse_renumbered (tokenize source).1 nextId nextId'
  unfold compile
  dsimp only
  generalize (Grammar.parse (tokenize source).1 nextId).result = r at parsed ⊢
  generalize (Grammar.parse (tokenize source).1 nextId').result = r' at parsed ⊢
  cases parsed with
  | ok same =>
    dsimp only
    split
    · exact .ok same
    · exact .error (faults_paired _)
  | error same => exact .error (List.rel_append (faults_paired _) same)

theorem compileExpression_paired (source : String) (nextId nextId' : NodeId) :
    PairedReading Eq (PairedExpr (.ofLines Eq)) (compileExpression source nextId).result
      (compileExpression source nextId').result := by
  unfold compileExpression
  dsimp only
  split
  · exact Grammar.parseExpression_paired (tokens_paired _) rfl nextId nextId'
  · exact .error (faults_paired _)

end Lox
