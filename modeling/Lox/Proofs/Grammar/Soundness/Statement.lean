import Lox.Proofs.Grammar.Soundness.Expression

/-!
# Programs that are read are derived

The rules for statements and declarations read what the nonterminals of their names derive, with
every `else` at the nearest `if`, so that a list of tokens which is read without a fault is a
program (`reads_program`).
-/

namespace Lox.Grammar

/-- A statement, which is open only if no `else` follows it. -/
def StatementOf (inLoop : Bool) (ts rest : List Token) (s : Stmt) : Prop :=
  ∃ isOpen, Ebnf.Statement False inLoop isOpen ts s ∧ (isOpen = true → Stops [.keyword .else] rest)

/-- Declarations and the brace that closes them. -/
def ClosedBody (inLoop : Bool) (ts : List Token) (ss : List Stmt) : Prop :=
  ∃ us right, ts = us ++ [right] ∧ Ebnf.Body False inLoop us ss ∧ right.kind = .symbol .rightBrace

/-- The rules that statements nest through read statements and blocks. -/
structure Nested.Sound (n : Nested State) : Prop where
  statement : ∀ inLoop, Reads (n.statement inLoop) (StatementOf inLoop)
  block : ∀ inLoop, Reads (n.block inLoop) (Whole (ClosedBody inLoop))

theorem statementOf_closed {inLoop : Bool} {ts rest : List Token} {s : Stmt}
    (h : Ebnf.Statement False inLoop false ts s) : StatementOf inLoop ts rest s :=
  ⟨false, h, nofun⟩

/-! ### Parts of statements -/

theorem reads_expressionStatement (fuel : Nat) :
    Reads (expressionStatement fuel) (Whole Ebnf.ExprStmt) := by
  apply ((reads_expression fuel).bind fun e => Reads.expecting fun stop _ => Reads.pure _).mono
  intro _ _ _ derivation
  obtain ⟨ts, e, _, rfl, derived, stop, _, rfl, isStop, rfl, rfl⟩ := derivation
  exact .mk derived isStop

theorem reads_optionalExpression (fuel : Nat) (follower : Kind) :
    Reads (optionalExpression fuel follower) (Whole Ebnf.ExpressionOption) := by
  refine Reads.seeing _ fun ended => Reads.ite (fun _ => ?_) fun _ => ?_
  · apply (Reads.pure none).mono
    intro _ _ _ derivation
    obtain ⟨rfl, rfl⟩ := derivation
    exact .none
  · apply (reads_expression fuel).map.mono
    intro _ _ _ derivation
    obtain ⟨e, derived, rfl⟩ := derivation
    exact .some derived

theorem reads_varDeclaration (fuel : Nat) :
    Reads (varDeclaration fuel) fun ts _ s =>
      ∀ keyword : Token, keyword.kind = .keyword .var → Ebnf.VarDecl (keyword :: ts) s := by
  have finish : ∀ (name : Token) (initializer : Option Expr), Reads (do
      let _ ← expect (.symbol .semicolon) .expectVariableEnd
      return Stmt.var name initializer) fun ts _ s =>
        ∃ stop : Token, ts = [stop] ∧ stop.kind = .symbol .semicolon ∧ s = .var name initializer := by
    intro name initializer
    apply (Reads.expecting fun stop _ => Reads.pure _).mono
    intro _ _ _ derivation
    obtain ⟨stop, _, rfl, isStop, rfl, rfl⟩ := derivation
    exact ⟨stop, rfl, isStop, rfl⟩
  apply (Reads.expecting fun name _ => Reads.accepting
    (fun _ _ => (reads_expression fuel).map.bind fun initializer => finish name initializer)
    ((Reads.pure none).bind fun initializer => finish name initializer)).mono
  intro _ _ _ derivation keyword isVar
  obtain ⟨name, _, rfl, isName, ⟨equals, _, rfl, isEqual, ts, _, _, rfl, ⟨e, derived, rfl⟩, stop,
    rfl, isStop, rfl⟩ | ⟨-, _, _, _, rfl, ⟨rfl, rfl⟩, stop, rfl, isStop, rfl⟩⟩ := derivation
  · exact .initialized isVar isName (by simpa using isEqual) derived isStop
  · exact .bare isVar isName isStop

theorem reads_forInitializer (fuel : Nat) :
    Reads (forInitializer fuel) (Whole Ebnf.ForInitializer) := by
  apply (Reads.accepting (fun _ _ => Reads.pure none) (Reads.accepting
    (fun _ _ => (reads_varDeclaration fuel).map) (reads_expressionStatement fuel).map)).mono
  intro _ _ _ derivation
  rcases derivation with ⟨stop, _, rfl, isStop, rfl, rfl⟩ | ⟨-, ⟨keyword, _, rfl, isVar, s, derived,
    rfl⟩ | ⟨-, s, derived, rfl⟩⟩
  · exact .none (by simpa using isStop)
  · exact .var (derived keyword (by simpa using isVar))
  · exact .expression derived

theorem forLoop_eq_forTree (initializer : Option Stmt) (condition increment : Option Expr)
    (body : Stmt) :
    forLoop initializer condition increment body
      = Ebnf.forTree initializer condition increment body := by
  cases initializer <;> cases increment <;> rfl

/-! ### Statements -/

section Statements

variable {n : Nested State} (h : n.Sound) (fuel : Nat)

include h

theorem reads_forStatement (inLoop : Bool) :
    Reads (forStatement n fuel) fun ts rest s =>
      ∀ keyword : Token, keyword.kind = .keyword .for →
        StatementOf inLoop (keyword :: ts) rest s := by
  apply (Reads.expecting fun _ _ => (reads_forInitializer fuel).bind fun initializer =>
    (reads_optionalExpression fuel _).bind fun condition => Reads.expecting fun _ _ =>
    (reads_optionalExpression fuel _).bind fun increment => Reads.expecting fun _ _ =>
    (h.statement true).bind fun body => Reads.pure _).mono
  intro _ rest _ derivation keyword isFor
  obtain ⟨opening, _, rfl, isOpening, is, initializer, _, rfl, first, cs, condition, _, rfl, second,
    stop, _, rfl, isStop, ns, increment, _, rfl, third, closing, _, rfl, isClosing, ts, body, _,
    rfl, ⟨isOpen, derived, nearest⟩, rfl, rfl⟩ := derivation
  rw [forLoop_eq_forTree]
  exact ⟨isOpen, by
    simpa using .for isFor isOpening first second isStop third isClosing derived, by
    simpa using nearest⟩

theorem reads_whileStatement (inLoop : Bool) :
    Reads (whileStatement n fuel) fun ts rest s =>
      ∀ keyword : Token, keyword.kind = .keyword .while →
        StatementOf inLoop (keyword :: ts) rest s := by
  apply (Reads.expecting fun _ _ => (reads_expression fuel).bind fun condition =>
    Reads.expecting fun _ _ => (h.statement true).bind fun body => Reads.pure _).mono
  intro _ rest _ derivation keyword isWhile
  obtain ⟨opening, _, rfl, isOpening, cs, condition, _, rfl, first, closing, _, rfl, isClosing, ts,
    body, _, rfl, ⟨isOpen, derived, nearest⟩, rfl, rfl⟩ := derivation
  exact ⟨isOpen, by simpa using .while isWhile isOpening first isClosing derived, by
    simpa using nearest⟩

/-- The branch before an `else` is not open, since it would have taken the `else` itself. -/
theorem reads_ifStatement (inLoop : Bool) :
    Reads (ifStatement n fuel inLoop) fun ts rest s =>
      ∀ keyword : Token, keyword.kind = .keyword .if →
        StatementOf inLoop (keyword :: ts) rest s := by
  apply (Reads.expecting fun _ _ => (reads_expression fuel).bind fun condition =>
    Reads.expecting fun _ _ => (h.statement inLoop).bind fun thenBranch => Reads.accepting
      (fun _ _ => (h.statement inLoop).map.bind fun elseBranch => Reads.pure _)
      ((Reads.pure none).bind fun elseBranch => Reads.pure _)).mono
  intro _ rest _ derivation keyword isIf
  obtain ⟨opening, _, rfl, isOpening, cs, condition, _, rfl, first, closing, _, rfl, isClosing, ts,
    thenBranch, _, rfl, ⟨inner, derived, nearest⟩, taken | missing⟩ := derivation
  · obtain ⟨other, _, rfl, isElse, us, _, _, rfl, ⟨elseBranch, ⟨isOpen, derived', nearest'⟩, rfl⟩,
      rfl, rfl⟩ := taken
    have closed : inner = true → False := fun isOpen => by
      have := nearest isOpen other (by simp)
      exact this isElse
    exact ⟨isOpen, by
      simpa using .ifElse isIf isOpening first isClosing derived closed (by simpa using isElse)
        derived', by simpa using nearest'⟩
  · obtain ⟨stops, _, _, _, rfl, ⟨rfl, rfl⟩, rfl, rfl⟩ := missing
    exact ⟨true, by simpa using .ifThen isIf isOpening first isClosing derived, fun _ => by
      simpa using stops⟩

omit h in
theorem reads_breakStatement (inLoop : Bool) (keyword : Token)
    (isBreak : keyword.kind = .keyword .break) :
    Reads (breakStatement keyword inLoop) fun ts rest s =>
      StatementOf inLoop (keyword :: ts) rest s := by
  refine Reads.unlessNoted (k := fun _ => expect _ _ >>= _) (fun _ => reads_note keyword _)
    (Reads.expecting fun _ _ => Reads.pure _) ?_
  intro within _ rest _ derivation
  obtain ⟨stop, _, rfl, isStop, rfl, rfl⟩ := derivation
  obtain rfl : inLoop = true := by simpa using within
  exact statementOf_closed (.break isBreak isStop)

omit h in
theorem reads_returnStatement (inLoop : Bool) (keyword : Token)
    (isReturn : keyword.kind = .keyword .return) :
    Reads (returnStatement keyword fuel) fun ts rest s =>
      StatementOf inLoop (keyword :: ts) rest s := by
  apply ((reads_optionalExpression fuel _).bind fun value => Reads.expecting fun _ _ =>
    Reads.pure _).mono
  intro _ rest _ derivation
  obtain ⟨ts, value, _, rfl, derived, stop, _, rfl, isStop, rfl, rfl⟩ := derivation
  exact statementOf_closed (.return isReturn derived isStop)

omit h in
theorem reads_printStatement (inLoop : Bool) :
    Reads (printStatement fuel) fun ts rest s =>
      ∀ keyword : Token, keyword.kind = .keyword .print →
        StatementOf inLoop (keyword :: ts) rest s := by
  apply ((reads_expression fuel).bind fun e => Reads.expecting fun _ _ => Reads.pure _).mono
  intro _ rest _ derivation keyword isPrint
  obtain ⟨ts, e, _, rfl, derived, stop, _, rfl, isStop, rfl, rfl⟩ := derivation
  exact statementOf_closed (.print isPrint derived isStop)

theorem reads_statement (inLoop : Bool) :
    Reads (statement n fuel inLoop) (StatementOf inLoop) := by
  refine (Reads.accepting (D := fun t ts rest s => StatementOf inLoop (t :: ts) rest s)
    (fun t mem => ?_) (reads_expressionStatement fuel)).mono ?_
  · dsimp only
    split
    · next isFor => exact (reads_forStatement h fuel inLoop).mono fun _ _ _ derived => derived t isFor
    · next isIf => exact (reads_ifStatement h fuel inLoop).mono fun _ _ _ derived => derived t isIf
    · next isWhile =>
      exact (reads_whileStatement h fuel inLoop).mono fun _ _ _ derived => derived t isWhile
    · next isBreak => exact reads_breakStatement inLoop t isBreak
    · next isReturn => exact reads_returnStatement fuel inLoop t isReturn
    · next isPrint =>
      exact (reads_printStatement fuel inLoop).mono fun _ _ _ derived => derived t isPrint
    · have isBrace : t.kind = .symbol .leftBrace := by simp_all [statementOpeners]
      apply (h.block inLoop).map.mono
      intro _ rest _ derivation
      obtain ⟨ss, ⟨us, right, rfl, body, isRight⟩, rfl⟩ := derivation
      exact statementOf_closed (.block isBrace body isRight)
  · intro _ rest _ derivation
    rcases derivation with ⟨t, us, rfl, -, derived⟩ | ⟨-, derived⟩
    · exact derived
    · exact statementOf_closed (.expression derived)

/-! ### Declarations -/

omit h fuel in
theorem reads_parameter : Reads (expect .identifier .expectParameterName) (Whole Ebnf.Identifier) := by
  rw [← bind_pure (expect _ _)]
  apply (Reads.expecting fun t _ => Reads.pure t).mono
  intro _ _ _ derivation
  obtain ⟨t, _, rfl, isName, rfl, rfl⟩ := derivation
  exact .mk isName

theorem reads_routine (r : Routine) :
    Reads (routine r n fuel) (Whole (Ebnf.Function (Ebnf.Body False false))) := by
  apply (Reads.expecting fun name _ => Reads.expecting fun _ _ =>
    (reads_listed reads_parameter _ fuel).bind fun params => Reads.expecting fun _ _ =>
    Reads.expecting fun _ _ => (h.block false).bind fun body => Reads.pure _).mono
  intro _ rest _ derivation
  obtain ⟨name, _, rfl, isName, opening, _, rfl, isOpening, ps, params, _, rfl, listing, closing, _,
    rfl, isClosing, left, _, rfl, isLeft, _, body, _, rfl, ⟨us, right, rfl, derived, isRight⟩, rfl,
    rfl⟩ := derivation
  simpa using .mk isName isOpening listing isClosing isLeft derived isRight

theorem reads_methods :
    Reads (methods n fuel) (Whole (Ebnf.Functions (Ebnf.Body False false))) := by
  induction fuel with
  | zero => exact Reads.throw _
  | succ fuel ih =>
    refine Reads.seeing _ fun closed => Reads.ending fun ended => Reads.ite (fun _ => ?_) fun _ => ?_
    · apply (Reads.pure []).mono
      intro _ _ _ derivation
      obtain ⟨rfl, rfl⟩ := derivation
      exact .nil
    · apply ((reads_routine h (fuel + 1) .method).bind fun first => ih.bind fun others =>
        Reads.pure _).mono
      intro _ _ _ derivation
      obtain ⟨ts, first, _, rfl, derived, us, others, _, rfl, rest, rfl, rfl⟩ := derivation
      simpa using Ebnf.Functions.cons derived rest

omit h fuel in
theorem reads_superclass? : Reads superclass? (Whole Ebnf.Superclass) := by
  refine Reads.mono (Reads.accepting (fun _ _ => Reads.expecting fun name _ =>
    Reads.numbering fun id => Reads.pure _) (Reads.pure none)) ?_
  intro _ _ _ derivation
  rcases derivation with ⟨less, _, rfl, isLess, name, _, rfl, isName, id, rfl, rfl⟩ | ⟨-, rfl, rfl⟩
  · exact .some (by simpa using isLess) isName
  · exact .none

theorem reads_classDeclaration (inLoop : Bool) :
    Reads (classDeclaration n fuel) fun ts _ s =>
      ∀ keyword : Token, keyword.kind = .keyword .class →
        Ebnf.Declaration False inLoop (keyword :: ts) s := by
  apply (Reads.expecting fun name _ => reads_superclass?.bind fun superclass =>
    Reads.expecting fun _ _ => (reads_methods h fuel).bind fun body => Reads.expecting fun _ _ =>
    Reads.pure _).mono
  intro _ rest _ derivation keyword isClass
  obtain ⟨name, _, rfl, isName, ss, superclass, _, rfl, head, left, _, rfl, isLeft, ms, body, _,
    rfl, derived, right, _, rfl, isRight, rfl, rfl⟩ := derivation
  exact .class isClass isName head isLeft derived isRight

theorem reads_declarationOrFail (inLoop : Bool) :
    Reads (declarationOrFail n fuel inLoop) (Whole (Ebnf.Declaration False inLoop)) := by
  refine (Reads.accepting (D := fun t ts _ s => Ebnf.Declaration False inLoop (t :: ts) s)
    (fun t mem => ?_) (reads_statement h fuel inLoop)).mono ?_
  · dsimp only
    split
    · next isClass =>
      exact (reads_classDeclaration h fuel inLoop).mono fun _ _ _ derived => derived t isClass
    · next isFun =>
      apply (reads_routine h fuel .function).map.mono
      intro _ _ _ derivation
      obtain ⟨d, derived, rfl⟩ := derivation
      exact .function isFun derived
    · have isVar : t.kind = .keyword .var := by simp_all [declarationOpeners]
      exact (reads_varDeclaration fuel).mono fun _ _ _ derived => .var (derived t isVar)
  · intro _ rest _ derivation
    rcases derivation with ⟨t, us, rfl, -, derived⟩ | ⟨-, isOpen, derived, -⟩
    · exact derived
    · exact .statement derived

omit h fuel in
theorem resume_suffix (ts : List Token) : resume ts <:+ ts := by
  cases ts with
  | nil => exact List.suffix_refl _
  | cons t rest => exact (skipFrom_suffix _ _).trans (List.suffix_cons _ _)

omit h fuel in
theorem declaration_of_ok {σ : Type} [Reader σ] {n : Nested σ} {fuel : Nat} {inLoop : Bool}
    {s t : σ} {a : Stmt}
    (read : declarationOrFail n fuel inLoop s = .ok a t) :
    declaration n fuel inLoop s = .ok (some a) t := by
  have mapped : (some <$> declarationOrFail n fuel inLoop) s = .ok (some a) t := by
    rw [← bind_pure_comp]
    exact bind_of_ok read
  show EStateM.tryCatch _ _ s = _
  unfold EStateM.tryCatch
  rw [mapped]

omit h fuel in
theorem declaration_of_fault {σ : Type} [Reader σ] {n : Nested σ} {fuel : Nat} {inLoop : Bool}
    {s t : σ} {d : Diagnostic} (failed : declarationOrFail n fuel inLoop s = .error (.fault d) t) :
    declaration n fuel inLoop s = .ok none (Reader.synchronize (Reader.note d t)) := by
  have mapped : (some <$> declarationOrFail n fuel inLoop) s = .error (.fault d) t := by
    rw [← bind_pure_comp]
    exact bind_of_error failed
  show EStateM.tryCatch _ _ s = _
  unfold EStateM.tryCatch
  rw [mapped]
  rfl

/-- A declaration that is given up leaves a fault behind. -/
theorem reads_declaration (inLoop : Bool) :
    Reads (declaration n fuel inLoop) fun ts _ o =>
      ∃ s, o = some s ∧ Ebnf.Declaration False inLoop ts s where
  later s := by
    have inner := (reads_declarationOrFail h fuel inLoop).map (f := some)
    have run := inner.later s
    show Later s (final (EStateM.tryCatch _ _ s))
    unfold EStateM.tryCatch
    cases tried : (some <$> declarationOrFail n fuel inLoop) s with
    | ok o t => rwa [tried] at run
    | error e t =>
      rw [tried] at run
      cases e with
      | fault d =>
        exact Later.trans run ⟨resume_suffix _, rfl, List.prefix_append _ _, Nat.le_refl _⟩
      | outOfFuel => exact run
  derives {s o u} run same := by
    have inner := (reads_declarationOrFail h fuel inLoop).map (f := some)
    have before := inner.later s
    change EStateM.tryCatch _ _ s = _ at run
    unfold EStateM.tryCatch at run
    cases tried : (some <$> declarationOrFail n fuel inLoop) s with
    | ok o' t =>
      rw [tried] at run
      cases run
      obtain ⟨ts, split, s', derived, rfl⟩ := inner.derives tried same
      exact ⟨ts, split, s', rfl, derived⟩
    | error e t =>
      rw [tried] at run before
      cases e with
      | fault d =>
        cases run
        have bound := before.noted.length_le
        have longer : (t.noted ++ [d]).length = s.noted.length := congrArg List.length same
        simp only [final, List.length_append, List.length_singleton] at bound longer
        omega
      | outOfFuel => cases run

omit h fuel in
theorem reads_declarations {inLoop : Bool} {one : Rule (Option Stmt)}
    (h : Reads one fun ts _ o => ∃ s, o = some s ∧ Ebnf.Declaration False inLoop ts s)
    (closer : Option Kind) (fuel : Nat) :
    Reads (declarations closer one fuel) (Whole (Ebnf.Body False inLoop)) := by
  induction fuel with
  | zero => exact Reads.throw _
  | succ fuel ih =>
    have go : ∀ closed, Reads (declarationsRound closer one fuel closed)
        (Whole (Ebnf.Body False inLoop)) := by
      intro closed
      refine Reads.ending fun ended => Reads.ite (fun _ => ?_) fun _ => ?_
      · apply (Reads.pure []).mono
        intro _ _ _ derivation
        obtain ⟨rfl, rfl⟩ := derivation
        exact .nil
      · refine (h.bind (F := fun o ts _ ss => ∀ s, o = some s →
          ∃ others, ss = s :: others ∧ Ebnf.Body False inLoop ts others) fun o => ?_).mono ?_
        · cases o with
          | none => exact ih.mono fun _ _ _ _ s isSome => by cases isSome
          | some s =>
            apply (ih.bind fun others => Reads.pure (s :: others)).mono
            rintro _ _ _ ⟨ts, others, _, rfl, derived, rfl, rfl⟩ _ ⟨⟩
            exact ⟨others, rfl, by simpa using derived⟩
        · intro _ _ _ derivation
          obtain ⟨ts, _, us, rfl, ⟨s, rfl, derived⟩, rest⟩ := derivation
          obtain ⟨others, rfl, derived'⟩ := rest s rfl
          exact .cons derived derived'
    cases closer with
    | none =>
      rw [declarations_unclosed]
      exact go false
    | some k =>
      rw [declarations_closed]
      exact Reads.seeing k go

theorem reads_block (inLoop : Bool) :
    Reads (block (declaration n fuel inLoop) fuel) (Whole (ClosedBody inLoop)) := by
  apply ((reads_declarations (reads_declaration h fuel inLoop) _ fuel).bind fun body =>
    Reads.expecting fun _ _ => Reads.pure body).mono
  intro _ _ _ derivation
  obtain ⟨us, body, _, rfl, derived, right, _, rfl, isRight, rfl, rfl⟩ := derivation
  exact ⟨us, right, rfl, derived, isRight⟩

end Statements

theorem nested_sound (fuel : Nat) : (nested fuel).Sound := by
  induction fuel with
  | zero => exact ⟨fun _ => Reads.throw _, fun _ => Reads.throw _⟩
  | succ fuel ih => exact ⟨reads_statement ih (fuel + 1), reads_block ih (fuel + 1)⟩

/-- What is read as a program without a fault is a program, with every `else` at the nearest
`if`. -/
theorem reads_program (fuel : Nat) : Reads (program fuel) (Whole (Ebnf.Program False)) :=
  reads_declarations (reads_declaration (nested_sound fuel) fuel false) none fuel

end Lox.Grammar
