import Lox.Proofs.Grammar.Completeness.Statement

/-!
# The nearest `if`

The plain grammar and the one with every `else` at the nearest `if` derive the same lists of tokens
(`program_plain`, `program_nearest`): an `else` after an open branch moves into that branch.
-/

namespace Lox.Ebnf

open Grammar (statement_starts declaration_starts)

/-! ### Looser derivations -/

/-- What is derived is still derived if more is allowed: a dangling `else`, or a `break`. -/
structure Loosens (strict loose : Prop) (bound : Nat) : Prop where
  statement : ∀ {inLoop looser isOpen ts s}, (inLoop = true → looser = true) → ts.length < bound →
    Statement strict inLoop isOpen ts s → Statement loose looser isOpen ts s
  body : ∀ {inLoop looser ts ss}, (inLoop = true → looser = true) → ts.length < bound →
    Body strict inLoop ts ss → Body loose looser ts ss

section Loosens

variable {strict loose : Prop} (sub : strict → loose) {bound : Nat} (h : Loosens strict loose bound)
  {inLoop looser : Bool} (loop : inLoop = true → looser = true)

include h

theorem function_loosens {ts : List Token} {d : FunctionDecl} (short : ts.length < bound + 1)
    (derived : Function (Body strict false) ts d) : Function (Body loose false) ts d := by
  obtain ⟨isName, isOpening, params, isClosing, isLeft, body, isRight⟩ := derived
  simp only [List.length_cons, List.length_append] at short
  exact .mk isName isOpening params isClosing isLeft (h.body id (by omega) body) isRight

theorem functions_loosens {ts : List Token} {ds : List FunctionDecl} (short : ts.length < bound + 1)
    (derived : Functions (Body strict false) ts ds) : Functions (Body loose false) ts ds := by
  induction derived with
  | nil => exact .nil
  | cons first _ ih =>
    simp only [List.length_append] at short
    exact .cons (function_loosens h (by omega) first) (ih (by omega))

include sub loop

theorem statement_loosens {isOpen : Bool} {ts : List Token} {s : Stmt}
    (short : ts.length < bound + 1) (derived : Statement strict inLoop isOpen ts s) :
    Statement loose looser isOpen ts s := by
  cases derived with
  | expression derived => exact .expression derived
  | «for» isFor isOpening first second isStop third isClosing body =>
    simp only [List.length_cons, List.length_append] at short
    exact .for isFor isOpening first second isStop third isClosing (h.statement id (by omega) body)
  | ifThen isIf isOpening condition isClosing body =>
    simp only [List.length_cons, List.length_append] at short
    exact .ifThen isIf isOpening condition isClosing (h.statement loop (by omega) body)
  | ifElse isIf isOpening condition isClosing body nearest isElse other =>
    simp only [List.length_cons, List.length_append] at short
    exact .ifElse isIf isOpening condition isClosing (h.statement loop (by omega) body)
      (fun isOpen => sub (nearest isOpen)) isElse (h.statement loop (by omega) other)
  | print isPrint derived isStop => exact .print isPrint derived isStop
  | «return» isReturn derived isStop => exact .return isReturn derived isStop
  | «while» isWhile isOpening condition isClosing body =>
    simp only [List.length_cons, List.length_append] at short
    exact .while isWhile isOpening condition isClosing (h.statement id (by omega) body)
  | «break» isBreak isStop =>
    obtain rfl := loop rfl
    exact .break isBreak isStop
  | block isLeft body isRight =>
    simp only [List.length_cons, List.length_append] at short
    exact .block isLeft (h.body loop (by omega) body) isRight

theorem declaration_loosens {ts : List Token} {s : Stmt} (short : ts.length < bound + 1)
    (derived : Declaration strict inLoop ts s) : Declaration loose looser ts s := by
  cases derived with
  | «class» isClass isName head isLeft methods isRight =>
    simp only [List.length_cons, List.length_append] at short
    exact .class isClass isName head isLeft (functions_loosens h (by omega) methods) isRight
  | function isFun routine =>
    simp only [List.length_cons] at short
    exact .function isFun (function_loosens h (by omega) routine)
  | var derived => exact .var derived
  | statement derived => exact .statement (statement_loosens sub h loop short derived)

end Loosens

theorem loosens {strict loose : Prop} (sub : strict → loose) (bound : Nat) :
    Loosens strict loose bound := by
  induction bound with
  | zero => exact ⟨fun _ short => absurd short (Nat.not_lt_zero _),
      fun _ short => absurd short (Nat.not_lt_zero _)⟩
  | succ bound ih =>
    refine ⟨fun loop => statement_loosens sub ih loop,
      @fun inLoop looser ts ss loop short derived => ?_⟩
    cases derived with
    | nil => exact .nil
    | cons first others =>
      obtain ⟨t, us, rfl, -⟩ := declaration_starts first
      simp only [List.length_append, List.length_cons] at short
      exact .cons (declaration_loosens sub ih loop (by simp; omega) first)
        (ih.body loop (by omega) others)

/-- A program with every `else` at the nearest `if` is a program. -/
theorem program_plain {ts : List Token} {ss : List Stmt} (derived : Program False ts ss) :
    Program True ts ss :=
  (loosens False.elim (ts.length + 1)).body id (Nat.lt_succ_self _) derived

/-! ### An `else` after an open statement -/

theorem Statement.over {dangling : Prop} {inLoop isOpen : Bool} {ts us : List Token} {s : Stmt}
    (h : Statement dangling inLoop isOpen us s) (same : ts = us) :
    ∃ isOpen' s', Statement dangling inLoop isOpen' ts s' :=
  ⟨isOpen, s, same ▸ h⟩

/-- The innermost `if` without `else` at the end of an open statement takes one. -/
theorem open_takes_else {inLoop : Bool} {ts us : List Token} {s elseBranch : Stmt} {other : Token}
    {isOpen : Bool} (derived : Statement False inLoop true ts s)
    (isElse : other.kind = .keyword .else)
    (branch : Statement False inLoop isOpen us elseBranch) :
    ∃ isOpen' s', Statement False inLoop isOpen' (ts ++ other :: us) s' := by
  -- By induction on the number of tokens: the open statement may stand under any number of others.
  obtain ⟨bound, short⟩ : ∃ bound, ts.length < bound := ⟨_, Nat.lt_succ_self _⟩
  induction bound generalizing inLoop ts s with
  | zero => exact absurd short (Nat.not_lt_zero _)
  | succ bound ih =>
    have looped : Statement False true isOpen us elseBranch :=
      (loosens id (us.length + 1)).statement (fun _ => rfl) (Nat.lt_succ_self _) branch
    cases derived with
    | «for» isFor isOpening first second isStop third isClosing body =>
      simp only [List.length_cons, List.length_append] at short
      obtain ⟨_, _, derived⟩ := ih body looped (by omega)
      exact Statement.over (.for isFor isOpening first second isStop third isClosing derived)
        (by simp)
    | «while» isWhile isOpening condition isClosing body =>
      simp only [List.length_cons, List.length_append] at short
      obtain ⟨_, _, derived⟩ := ih body looped (by omega)
      exact Statement.over (.while isWhile isOpening condition isClosing derived) (by simp)
    | @ifThen _ inner _ _ _ _ _ _ _ isIf isOpening condition isClosing body =>
      simp only [List.length_cons, List.length_append] at short
      cases inner with
      | false =>
        -- The branch is closed, so this is the nearest `if`.
        have taken := Statement.ifElse isIf isOpening condition isClosing body nofun isElse branch
        exact Statement.over taken (by simp)
      | true =>
        obtain ⟨_, _, derived⟩ := ih body branch (by omega)
        exact Statement.over (.ifThen isIf isOpening condition isClosing derived) (by simp)
    | ifElse isIf isOpening condition isClosing body nearest isElse' inner =>
      simp only [List.length_cons, List.length_append] at short
      obtain ⟨_, _, derived⟩ := ih inner branch (by omega)
      have taken := Statement.ifElse isIf isOpening condition isClosing body nearest isElse' derived
      exact Statement.over taken (by simp)

/-! ### The nearest `if` -/

/-- What the plain grammar derives is derived with every `else` at the nearest `if`, for fewer than
`bound` tokens. -/
structure Nearest (bound : Nat) : Prop where
  statement : ∀ {inLoop isOpen ts s}, ts.length < bound → Statement True inLoop isOpen ts s →
    ∃ isOpen' s', Statement False inLoop isOpen' ts s'
  body : ∀ {inLoop ts ss}, ts.length < bound → Body True inLoop ts ss →
    ∃ ss', Body False inLoop ts ss'

section Nearest

variable {bound : Nat} (h : Nearest bound)

include h

theorem statement_nearest {inLoop isOpen : Bool} {ts : List Token} {s : Stmt}
    (short : ts.length < bound + 1) (derived : Statement True inLoop isOpen ts s) :
    ∃ isOpen' s', Statement False inLoop isOpen' ts s' := by
  cases derived with
  | expression derived => exact ⟨_, _, .expression derived⟩
  | «for» isFor isOpening first second isStop third isClosing body =>
    simp only [List.length_cons, List.length_append] at short
    obtain ⟨_, _, derived⟩ := h.statement (by omega) body
    exact ⟨_, _, .for isFor isOpening first second isStop third isClosing derived⟩
  | ifThen isIf isOpening condition isClosing body =>
    simp only [List.length_cons, List.length_append] at short
    obtain ⟨_, _, derived⟩ := h.statement (by omega) body
    exact ⟨_, _, .ifThen isIf isOpening condition isClosing derived⟩
  | ifElse isIf isOpening condition isClosing body _ isElse other =>
    simp only [List.length_cons, List.length_append] at short
    obtain ⟨inner, _, derived⟩ := h.statement (by omega) body
    obtain ⟨_, _, derived'⟩ := h.statement (by omega) other
    cases inner with
    | false =>
      exact ⟨_, _, .ifElse isIf isOpening condition isClosing derived nofun isElse derived'⟩
    | true =>
      -- The branch takes the `else`, and this `if` is left without one.
      obtain ⟨_, _, joined⟩ := open_takes_else derived isElse derived'
      exact ⟨_, _, .ifThen isIf isOpening condition isClosing joined⟩
  | print isPrint derived isStop => exact ⟨_, _, .print isPrint derived isStop⟩
  | «return» isReturn derived isStop => exact ⟨_, _, .return isReturn derived isStop⟩
  | «while» isWhile isOpening condition isClosing body =>
    simp only [List.length_cons, List.length_append] at short
    obtain ⟨_, _, derived⟩ := h.statement (by omega) body
    exact ⟨_, _, .while isWhile isOpening condition isClosing derived⟩
  | «break» isBreak isStop => exact ⟨_, _, .break isBreak isStop⟩
  | block isLeft body isRight =>
    simp only [List.length_cons, List.length_append] at short
    obtain ⟨_, derived⟩ := h.body (by omega) body
    exact ⟨_, _, .block isLeft derived isRight⟩

theorem function_nearest {ts : List Token} {d : FunctionDecl} (short : ts.length < bound + 1)
    (derived : Function (Body True false) ts d) :
    ∃ d', Function (Body False false) ts d' := by
  obtain ⟨isName, isOpening, params, isClosing, isLeft, body, isRight⟩ := derived
  simp only [List.length_cons, List.length_append] at short
  obtain ⟨_, derived⟩ := h.body (by omega) body
  exact ⟨_, .mk isName isOpening params isClosing isLeft derived isRight⟩

theorem functions_nearest {ts : List Token} {ds : List FunctionDecl} (short : ts.length < bound + 1)
    (derived : Functions (Body True false) ts ds) :
    ∃ ds', Functions (Body False false) ts ds' := by
  induction derived with
  | nil => exact ⟨_, .nil⟩
  | cons first others ih =>
    simp only [List.length_append] at short
    obtain ⟨_, derived⟩ := function_nearest h (by omega) first
    obtain ⟨_, derived'⟩ := ih (by omega)
    exact ⟨_, .cons derived derived'⟩

theorem declaration_nearest {inLoop : Bool} {ts : List Token} {s : Stmt}
    (short : ts.length < bound + 1) (derived : Declaration True inLoop ts s) :
    ∃ s', Declaration False inLoop ts s' := by
  cases derived with
  | «class» isClass isName head isLeft methods isRight =>
    simp only [List.length_cons, List.length_append] at short
    obtain ⟨_, derived⟩ := functions_nearest h (by omega) methods
    exact ⟨_, .class isClass isName head isLeft derived isRight⟩
  | function isFun routine =>
    simp only [List.length_cons] at short
    obtain ⟨_, derived⟩ := function_nearest h (by omega) routine
    exact ⟨_, .function isFun derived⟩
  | var derived => exact ⟨_, .var derived⟩
  | statement derived =>
    obtain ⟨_, _, derived⟩ := statement_nearest h short derived
    exact ⟨_, .statement derived⟩

end Nearest

theorem nearest (bound : Nat) : Nearest bound := by
  induction bound with
  | zero => exact ⟨fun short => absurd short (Nat.not_lt_zero _),
      fun short => absurd short (Nat.not_lt_zero _)⟩
  | succ bound ih =>
    refine ⟨statement_nearest ih, @fun inLoop ts ss short derived => ?_⟩
    cases derived with
    | nil => exact ⟨_, .nil⟩
    | cons first others =>
      obtain ⟨t, us, rfl, -⟩ := declaration_starts first
      simp only [List.length_append, List.length_cons] at short
      obtain ⟨_, derived⟩ := declaration_nearest ih (by simp; omega) first
      obtain ⟨_, derived'⟩ := ih.body (by omega) others
      exact ⟨_, .cons derived derived'⟩

/-- The plain grammar derives no more lists of tokens. -/
theorem program_nearest {ts : List Token} {ss : List Stmt} (derived : Program True ts ss) :
    ∃ ss', Program False ts ss' :=
  (nearest (ts.length + 1)).body (Nat.lt_succ_self _) derived

end Lox.Ebnf
