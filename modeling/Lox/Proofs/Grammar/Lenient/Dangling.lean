import Lox.Proofs.Grammar.Lenient.Statement

/-!
# The nearest `if` in the lenient grammar

The lenient grammar and the one with every `else` at the nearest `if` derive the same lists of
tokens (`program_nearest_iff`). The violations need not be the same: an `else` that moves into the
body of a loop takes its branch with it, and a `break` in there has a loop around it then.
-/

namespace Lox.Lenient

open Grammar (lenient_declaration_starts)

/-! ### Looser derivations -/

/-- What is derived with every `else` at the nearest `if` is derived, for fewer than `bound`
tokens. -/
structure Plain (bound : Nat) : Prop where
  statement : ∀ {inLoop isOpen ts vs}, ts.length < bound → Statement False inLoop isOpen ts vs →
    Statement True inLoop isOpen ts vs
  body : ∀ {inLoop ts vs}, ts.length < bound → Body False inLoop ts vs → Body True inLoop ts vs

theorem IfHead.nonempty {hs : List Token} {vs : List Diagnostic} (h : IfHead hs vs) :
    0 < hs.length := by
  cases h
  exact Nat.succ_pos _

theorem LoopHead.nonempty {hs : List Token} {vs : List Diagnostic} (h : LoopHead hs vs) :
    0 < hs.length := by
  cases h <;> exact Nat.succ_pos _

section Plain

variable {bound : Nat} (h : Plain bound) {inLoop : Bool} {ts : List Token} {vs : List Diagnostic}

include h

theorem statement_plain {isOpen : Bool} (short : ts.length < bound + 1)
    (derived : Statement False inLoop isOpen ts vs) : Statement True inLoop isOpen ts vs := by
  cases derived with
  | simple derived => exact .simple derived
  | loop head body =>
    have some := head.nonempty
    rw [List.length_append] at short
    exact .loop head (h.statement (by omega) body)
  | ifThen head body =>
    have some := head.nonempty
    rw [List.length_append] at short
    exact .ifThen head (h.statement (by omega) body)
  | ifElse head body nearest isElse other =>
    simp only [List.length_append, List.length_cons] at short
    exact .ifElse head (h.statement (by omega) body) (fun _ => trivial) isElse
      (h.statement (by omega) other)
  | block isLeft body isRight =>
    simp only [List.length_cons, List.length_append] at short
    exact .block isLeft (h.body (by omega) body) isRight

theorem function_plain (short : ts.length < bound + 1)
    (derived : Function (Body False false) ts vs) : Function (Body True false) ts vs := by
  obtain ⟨isName, isOpening, params, isClosing, isLeft, body, isRight⟩ := derived
  simp only [List.length_cons, List.length_append] at short
  exact .mk isName isOpening params isClosing isLeft (h.body (by omega) body) isRight

theorem functions_plain (short : ts.length < bound + 1)
    (derived : Functions (Body False false) ts vs) : Functions (Body True false) ts vs := by
  induction derived with
  | nil => exact .nil
  | cons first _ ih =>
    simp only [List.length_append] at short
    exact .cons (function_plain h (by omega) first) (ih (by omega))

theorem declaration_plain (short : ts.length < bound + 1)
    (derived : Declaration False inLoop ts vs) : Declaration True inLoop ts vs := by
  cases derived with
  | «class» isClass isName head isLeft methods isRight =>
    simp only [List.length_cons, List.length_append] at short
    exact .class isClass isName head isLeft (functions_plain h (by omega) methods) isRight
  | function isFun routine =>
    simp only [List.length_cons] at short
    exact .function isFun (function_plain h (by omega) routine)
  | var derived => exact .var derived
  | statement derived => exact .statement (statement_plain h short derived)

end Plain

theorem plain (bound : Nat) : Plain bound := by
  induction bound with
  | zero => exact ⟨fun short => absurd short (Nat.not_lt_zero _),
      fun short => absurd short (Nat.not_lt_zero _)⟩
  | succ bound ih =>
    refine ⟨statement_plain ih, @fun inLoop ts vs short derived => ?_⟩
    cases derived with
    | nil => exact .nil
    | cons first others =>
      obtain ⟨t, us, rfl, -⟩ := lenient_declaration_starts first
      simp only [List.length_append, List.length_cons] at short
      exact .cons (declaration_plain ih (by simp; omega) first) (ih.body (by omega) others)

/-! ### An `else` after an open statement -/

/-- A statement with or without a loop around it, with every `else` at the nearest `if`. -/
def Anywhere (ts : List Token) : Prop :=
  ∀ inLoop, ∃ isOpen vs, Statement False inLoop isOpen ts vs

theorem Simple.anywhere {inLoop : Bool} {ts : List Token} {vs : List Diagnostic}
    (h : Simple inLoop ts vs) : Anywhere ts := by
  intro inLoop'
  cases h with
  | expression derived => exact ⟨_, _, .simple (.expression derived)⟩
  | print isPrint derived isStop => exact ⟨_, _, .simple (.print isPrint derived isStop)⟩
  | «return» isReturn derived isStop => exact ⟨_, _, .simple (.return isReturn derived isStop)⟩
  | «break» isBreak isStop | strayBreak isBreak isStop =>
    cases inLoop' with
    | true => exact ⟨_, _, .simple (.break isBreak isStop)⟩
    | false => exact ⟨_, _, .simple (.strayBreak isBreak isStop)⟩

/-- The innermost `if` without `else` at the end of an open statement takes one. -/
theorem open_takes_else {inLoop : Bool} {ts us : List Token} {vs : List Diagnostic} {other : Token}
    (derived : Statement False inLoop true ts vs) (isElse : other.kind = .keyword .else)
    (branch : Anywhere us) :
    ∃ isOpen ws, Statement False inLoop isOpen (ts ++ other :: us) ws := by
  -- By induction on the number of tokens: the open statement may stand under any number of others.
  obtain ⟨bound, short⟩ : ∃ bound, ts.length < bound := ⟨_, Nat.lt_succ_self _⟩
  induction bound generalizing inLoop ts vs with
  | zero => exact absurd short (Nat.not_lt_zero _)
  | succ bound ih =>
    obtain ⟨_, _, taken⟩ := branch inLoop
    cases derived with
    | loop head body =>
      have some := head.nonempty
      rw [List.length_append] at short
      obtain ⟨_, _, derived⟩ := ih body (by omega)
      rw [List.append_assoc]
      exact ⟨_, _, .loop head derived⟩
    | @ifThen _ inner _ _ _ _ head body =>
      have some := head.nonempty
      rw [List.length_append] at short
      rw [List.append_assoc]
      cases inner with
      | false => exact ⟨_, _, .ifElse head body nofun isElse taken⟩
      | true =>
        obtain ⟨_, _, derived⟩ := ih body (by omega)
        exact ⟨_, _, .ifThen head derived⟩
    | ifElse head body nearest isElse' inner =>
      simp only [List.length_append, List.length_cons] at short
      obtain ⟨_, _, derived⟩ := ih inner (by omega)
      simp only [List.append_assoc, List.cons_append]
      exact ⟨_, _, .ifElse head body nearest isElse' derived⟩

/-! ### The nearest `if` -/

/-- What is derived with an `else` anywhere is derived with every `else` at the nearest `if`,
whether or not a loop is around, for fewer than `bound` tokens. -/
structure Nearest (bound : Nat) : Prop where
  statement : ∀ {inLoop isOpen ts vs}, ts.length < bound → Statement True inLoop isOpen ts vs →
    Anywhere ts
  body : ∀ {inLoop ts vs}, ts.length < bound → Body True inLoop ts vs →
    ∀ inLoop', ∃ vs', Body False inLoop' ts vs'

section Nearest

variable {bound : Nat} (h : Nearest bound) {inLoop : Bool} {ts : List Token} {vs : List Diagnostic}

include h

theorem statement_nearest {isOpen : Bool} (short : ts.length < bound + 1)
    (derived : Statement True inLoop isOpen ts vs) : Anywhere ts := by
  cases derived with
  | simple derived => exact derived.anywhere
  | loop head body =>
    have some := head.nonempty
    rw [List.length_append] at short
    obtain ⟨_, _, derived⟩ := h.statement (by omega) body true
    exact fun _ => ⟨_, _, .loop head derived⟩
  | ifThen head body =>
    have some := head.nonempty
    rw [List.length_append] at short
    intro inLoop'
    obtain ⟨_, _, derived⟩ := h.statement (by omega) body inLoop'
    exact ⟨_, _, .ifThen head derived⟩
  | ifElse head body _ isElse other =>
    simp only [List.length_append, List.length_cons] at short
    intro inLoop'
    have branch := h.statement (by omega) other
    obtain ⟨inner, _, derived⟩ := h.statement (by omega) body inLoop'
    obtain ⟨_, _, derived'⟩ := branch inLoop'
    cases inner with
    | false => exact ⟨_, _, .ifElse head derived nofun isElse derived'⟩
    | true =>
      -- The branch takes the `else`, and this `if` is left without one.
      obtain ⟨_, _, joined⟩ := open_takes_else derived isElse branch
      exact ⟨_, _, .ifThen head joined⟩
  | block isLeft body isRight =>
    simp only [List.length_cons, List.length_append] at short
    intro inLoop'
    obtain ⟨_, derived⟩ := h.body (by omega) body inLoop'
    exact ⟨_, _, .block isLeft derived isRight⟩

theorem function_nearest (short : ts.length < bound + 1)
    (derived : Function (Body True false) ts vs) : ∃ vs', Function (Body False false) ts vs' := by
  obtain ⟨isName, isOpening, params, isClosing, isLeft, body, isRight⟩ := derived
  simp only [List.length_cons, List.length_append] at short
  obtain ⟨_, derived⟩ := h.body (by omega) body false
  exact ⟨_, .mk isName isOpening params isClosing isLeft derived isRight⟩

theorem functions_nearest (short : ts.length < bound + 1)
    (derived : Functions (Body True false) ts vs) :
    ∃ vs', Functions (Body False false) ts vs' := by
  induction derived with
  | nil => exact ⟨_, .nil⟩
  | cons first others ih =>
    simp only [List.length_append] at short
    obtain ⟨_, derived⟩ := function_nearest h (by omega) first
    obtain ⟨_, derived'⟩ := ih (by omega)
    exact ⟨_, .cons derived derived'⟩

theorem declaration_nearest (short : ts.length < bound + 1)
    (derived : Declaration True inLoop ts vs) :
    ∀ inLoop', ∃ vs', Declaration False inLoop' ts vs' := by
  intro inLoop'
  cases derived with
  | «class» isClass isName head isLeft methods isRight =>
    simp only [List.length_cons, List.length_append] at short
    obtain ⟨_, derived⟩ := functions_nearest h (by omega) methods
    exact ⟨_, .class isClass isName head isLeft derived isRight⟩
  | function isFun routine =>
    simp only [List.length_cons] at short
    obtain ⟨_, derived⟩ := function_nearest h (by omega) routine
    exact ⟨_, .function isFun derived⟩
  | var derived => exact ⟨_, .var derived⟩
  | statement derived =>
    obtain ⟨_, _, derived⟩ := statement_nearest h short derived inLoop'
    exact ⟨_, .statement derived⟩

end Nearest

theorem nearest (bound : Nat) : Nearest bound := by
  induction bound with
  | zero => exact ⟨fun short => absurd short (Nat.not_lt_zero _),
      fun short => absurd short (Nat.not_lt_zero _)⟩
  | succ bound ih =>
    refine ⟨statement_nearest ih, @fun inLoop ts vs short derived inLoop' => ?_⟩
    cases derived with
    | nil => exact ⟨_, .nil⟩
    | cons first others =>
      obtain ⟨t, us, rfl, -⟩ := lenient_declaration_starts first
      simp only [List.length_append, List.length_cons] at short
      obtain ⟨_, derived⟩ := declaration_nearest ih (by simp; omega) first inLoop'
      obtain ⟨_, derived'⟩ := ih.body (by omega) others inLoop'
      exact ⟨_, .cons derived derived'⟩

/-- The plain grammar derives no more lists of tokens than the one with every `else` at the nearest
`if`, and no fewer. -/
theorem program_nearest_iff (ts : List Token) :
    (∃ vs, Program True ts vs) ↔ ∃ vs, Program False ts vs := by
  refine ⟨fun ⟨_, derived⟩ => ?_, fun ⟨vs, derived⟩ => ?_⟩
  · exact (nearest (ts.length + 1)).body (Nat.lt_succ_self _) derived false
  · exact ⟨vs, (plain (ts.length + 1)).body (Nat.lt_succ_self _) derived⟩

end Lox.Lenient
