import Lox.Evaluation
import Lox.Proofs.Binding.Occurrence
import Lox.Proofs.Grammar.Formed

/-!
# How statements end

A statement ends with a `break` only in a loop, and with a `return` only if one occurs in it. So the
body of a function never breaks (`executeAll_unbroken`), and a statement of a program always goes on
(`execute_normal`).
-/

namespace Lox

open Grammar (bind_ok)

/-- Whatever value the computation ends with, from whatever machine, is of the kind. -/
def Yields {α : Type} (x : Eval α) (Q : α → Prop) : Prop := ∀ m a n, x m = .ok a n → Q a

namespace Yields

variable {α β : Type} {Q : α → Prop}

theorem pure {a : α} (holds : Q a) : Yields (Pure.pure a) Q := by
  intro m b n ended
  cases ended
  exact holds

theorem throw (e : Halt) : Yields (MonadExcept.throw e : Eval α) Q := fun _ _ _ ended => nomatch ended

theorem bind {x : Eval β} {f : β → Eval α} {P : β → Prop} (first : Yields x P)
    (next : ∀ b, P b → Yields (f b) Q) : Yields (x >>= f) Q := by
  intro m a n ended
  obtain ⟨b, m', start, rest⟩ := bind_ok ended
  exact next b (first m b m' start) m' a n rest

/-- What comes first does not matter. -/
theorem last {x : Eval β} {f : β → Eval α} (next : ∀ b, Yields (f b) Q) : Yields (x >>= f) Q :=
  bind (P := fun _ => True) (fun _ _ _ _ => trivial) fun b _ => next b

theorem ite {c : Prop} [Decidable c] {x y : Eval α} (h : Yields x Q) (k : Yields y Q) :
    Yields (if c then x else y) Q := by
  split
  · exact h
  · exact k

theorem within {x : Eval α} (env : Env) (h : Yields x Q) : Yields (Lox.within env x) Q := by
  intro m a n ended
  unfold Lox.within at ended
  dsimp only at ended
  split at ended
  · next b n' inner =>
    cases ended
    exact h _ _ _ inner
  · nomatch ended

theorem mono {x : Eval α} {P : α → Prop} (h : Yields x P) (weaker : ∀ a, P a → Q a) : Yields x Q :=
  fun m a n ended => weaker a (h m a n ended)

end Yields

/-- A `break` has a loop around it, and a `return` is found with `a` around it. -/
structure Justified (inLoop : Bool) (a : Around) (found : List (Around × Occurrence)) (flow : Flow) :
    Prop where
  «break» : flow = .break → inLoop = true
  «return» : ∀ v, flow = .return v → ∃ keyword value, (a, .return keyword value) ∈ found

section Justified

variable {inLoop : Bool} {a : Around} {found more : List (Around × Occurrence)} {flow : Flow}

theorem justified_normal : Justified inLoop a found .normal :=
  ⟨(nomatch ·), fun _ same => nomatch same⟩

theorem Justified.mono (h : Justified inLoop a found flow) (sub : found ⊆ more) :
    Justified inLoop a more flow where
  «break» := h.break
  «return» v same := by
    obtain ⟨keyword, value, mem⟩ := h.return v same
    exact ⟨keyword, value, sub mem⟩

/-- A statement that ends in the same way whatever it does. -/
theorem yields_normal {α : Type} (x : Eval α) :
    Yields (x >>= fun _ => Pure.pure Flow.normal) (Justified inLoop a found) :=
  Yields.last fun _ => Yields.pure justified_normal

end Justified

/-! ### Loops -/

/-- A loop ends with what its body returned. A `break` of the body is the end of the loop. -/
theorem loop_yields {condition : Eval Value} {body : Eval Flow} {Q : Flow → Prop}
    (lap : Yields body Q) (laps : Nat) :
    Yields (loop condition body laps) fun flow => flow = .normal ∨ ∃ v, flow = .return v ∧ Q flow := by
  induction laps with
  | zero => exact Yields.throw _
  | succ laps ih =>
    refine Yields.last fun v => Yields.ite (lap.bind fun flow ended => ?_) (Yields.pure (.inl rfl))
    cases flow with
    | normal => exact ih
    | «break» => exact Yields.pure (.inl rfl)
    | «return» v => exact Yields.pure (.inr ⟨v, rfl, ended⟩)

/-- A loop never ends with a `break`, whatever its body is. -/
theorem loop_unbroken (condition : Eval Value) (body : Eval Flow) (laps : Nat) :
    Yields (loop condition body laps) (· ≠ .break) :=
  (loop_yields (Q := fun _ => True) (fun _ _ _ _ => trivial) laps).mono fun flow ended => by
    obtain rfl | ⟨v, rfl, -⟩ := ended
    · exact Flow.noConfusion
    · exact Flow.noConfusion

/-! ### Statements -/

section Statements

variable (call : Invoke) (laps : Nat) (a : Around)

mutual

theorem execute_justified (isLocal : Bool) {inLoop : Bool} : (s : Stmt) → s.Formed inLoop →
    Yields (execute call laps s) (Justified inLoop a (s.occurrences a isLocal))
  | .expression _, _ => yields_normal _
  | .print _, _ => Yields.last fun _ => yields_normal _
  | .var _ _, _ => Yields.last fun _ => yields_normal _
  | .block body, formed => Yields.last fun _ => Yields.last fun env =>
    ((executeAll_justified true body formed).within env).mono fun _ ended =>
      ended.mono (List.subset_cons_self _ _)
  | .ite _ thenBranch none, formed => Yields.last fun _ => Yields.ite
    ((execute_justified isLocal thenBranch formed.1).mono fun _ ended =>
      ended.mono (List.subset_append_right _ _))
    (Yields.pure justified_normal)
  | .ite _ thenBranch (some elseBranch), formed => Yields.last fun _ => Yields.ite
    ((execute_justified isLocal thenBranch formed.1.1).mono fun _ ended =>
      ended.mono (List.Subset.trans (List.subset_append_left _ _) (List.subset_append_right _ _)))
    ((execute_justified isLocal elseBranch formed.2.1).mono fun _ ended =>
      ended.mono (List.Subset.trans (List.subset_append_right _ _) (List.subset_append_right _ _)))
  | .while condition body, formed =>
    (loop_yields (execute_justified isLocal body formed.1) laps).mono fun flow ended => by
      obtain rfl | ⟨v, rfl, returned⟩ := ended
      · exact justified_normal
      · exact ⟨(nomatch ·),
          (returned.mono (List.subset_append_right _ _)).return⟩
  | .break _, formed => Yields.pure ⟨fun _ => formed, fun _ same => nomatch same⟩
  | .function _, _ => yields_normal _
  | .return keyword value, _ => Yields.last fun _ => Yields.pure
    ⟨(nomatch ·), fun _ _ => ⟨keyword, value, List.mem_cons_self⟩⟩
  | .class _ _ _, _ => yields_normal _

theorem executeAll_justified (isLocal : Bool) {inLoop : Bool} : (ss : List Stmt) →
    Stmt.FormedAll inLoop ss →
    Yields (executeAll call laps ss) (Justified inLoop a (Stmt.occurrencesAll a isLocal ss))
  | [], _ => Yields.pure justified_normal
  | s :: ss, formed => (execute_justified isLocal s formed.1).bind fun flow ended => by
    cases flow with
    | normal =>
      exact (executeAll_justified isLocal ss formed.2).mono fun _ ended =>
        ended.mono (List.subset_append_right _ _)
    | «break» => exact Yields.pure (ended.mono (List.subset_append_left _ _))
    | «return» v => exact Yields.pure (ended.mono (List.subset_append_left _ _))

end

end Statements

/-- The body of a function ends with no `break`. -/
theorem executeAll_unbroken (call : Invoke) (laps : Nat) {d : FunctionDecl} (formed : d.Formed) :
    Yields (executeAll call laps d.body) (· ≠ .break) :=
  (executeAll_justified call laps ⟨none, none⟩ true d.body formed.body).mono fun _ ended broken =>
    nomatch ended.break broken

/-- A statement of a program goes on, if every `return` of the program stands in a function. -/
theorem execute_normal (call : Invoke) (laps : Nat) {program : List Stmt}
    (formed : Stmt.FormedAll false program)
    (returns : ∀ a keyword value, (a, .return keyword value) ∈ programOccurrences program →
      ∃ f, a.routine = some f) {s : Stmt} (top : s ∈ program) :
    Yields (execute call laps s) (· = .normal) := by
  have inside : s.occurrences ⟨none, none⟩ false ⊆ programOccurrences program :=
    Stmt.occurrences_subset top
  refine (execute_justified call laps ⟨none, none⟩ false s
    (Stmt.formedAll_iff.1 formed s top)).mono fun flow ended => ?_
  cases flow with
  | normal => rfl
  | «break» => exact nomatch ended.break rfl
  | «return» v =>
    obtain ⟨keyword, value, mem⟩ := ended.return v rfl
    obtain ⟨f, routine⟩ := returns _ _ _ (inside mem)
    nomatch routine

end Lox
