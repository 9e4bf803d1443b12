import Lox.Proofs.Grammar.Soundness.Expression

/-!
# Rules on two readers

What a rule does depends on its reader only by what that tells. If two readers tell the same and go
on doing so after each step (`Mirrors`), every rule of the grammar comes to the same with either of
them (`Production.mirrored`).
-/

namespace Lox.Grammar

open EStateM (Result)

variable {σ τ α β γ : Type}

/-- Two readers that go together tell the same, and go together after each step. -/
structure Mirrors [Reader σ] [Reader τ] (R : σ → τ → Prop) : Prop where
  peek : ∀ {s t}, R s t → Reader.peek s = Reader.peek t
  isAtEnd : ∀ {s t}, R s t → Reader.isAtEnd s = Reader.isAtEnd t
  advance : ∀ {s t}, R s t → R (Reader.advance s) (Reader.advance t)
  synchronize : ∀ {s t}, R s t → R (Reader.synchronize s) (Reader.synchronize t)
  noted : ∀ {s t}, R s t → Reader.noted s = Reader.noted t
  note : ∀ {s t} d, R s t → R (Reader.note d s) (Reader.note d t)
  nextId : ∀ {s t}, R s t → Reader.nextId s = Reader.nextId t
  number : ∀ {s t}, R s t → R (Reader.number s) (Reader.number t)

/-- The same tree or the same failure, and the readers still go together. -/
inductive MirroredResult (R : σ → τ → Prop) : Result Failure σ α → Result Failure τ α → Prop
  | ok (a : α) {s : σ} {t : τ} (together : R s t) : MirroredResult R (.ok a s) (.ok a t)
  | error (e : Failure) {s : σ} {t : τ} (together : R s t) :
      MirroredResult R (.error e s) (.error e t)

/-- From readers that go together, both rules come to the same. -/
def Mirrored (R : σ → τ → Prop) (x : RuleOf σ α) (y : RuleOf τ α) : Prop :=
  ∀ s t, R s t → MirroredResult R (x s) (y t)

theorem MirroredResult.final {R : σ → τ → Prop} {r : Result Failure σ α} {r' : Result Failure τ α}
    (h : MirroredResult R r r') : R (final r) (final r') := by
  cases h with
  | ok _ together => exact together
  | error _ together => exact together

theorem MirroredResult.parsed [Reader σ] [Reader τ] {R : σ → τ → Prop} (m : Mirrors R)
    {r : Result Failure σ α} {r' : Result Failure τ α} (h : MirroredResult R r r') :
    Parsed.ofResult r = Parsed.ofResult r' := by
  cases h with
  | ok a together => rw [Parsed.ofResult, Parsed.ofResult, m.noted together, m.nextId together]
  | error e together =>
    cases e <;> rw [Parsed.ofResult, Parsed.ofResult, m.noted together, m.nextId together]

namespace Mirrored

variable {R : σ → τ → Prop} {x : RuleOf σ α} {y : RuleOf τ α}

theorem pure (a : α) : Mirrored R (Pure.pure a) (Pure.pure a) := fun _ _ together => .ok a together

theorem throw (e : Failure) : Mirrored R (MonadExcept.throw e : RuleOf σ α) (MonadExcept.throw e) :=
  fun _ _ together => .error e together

theorem bind {f : α → RuleOf σ β} {g : α → RuleOf τ β} (h : Mirrored R x y)
    (next : ∀ a, Mirrored R (f a) (g a)) : Mirrored R (x >>= f) (y >>= g) := by
  intro s t together
  have first := h s t together
  show MirroredResult R (EStateM.bind x f s) (EStateM.bind y g t)
  unfold EStateM.bind
  generalize x s = r at first ⊢
  generalize y t = r' at first ⊢
  cases first with
  | ok a together => exact next a _ _ together
  | error e together => exact .error e together

theorem map (f : α → β) (h : Mirrored R x y) : Mirrored R (f <$> x) (f <$> y) := by
  rw [← bind_pure_comp, ← bind_pure_comp]
  exact h.bind fun a => pure (f a)

theorem ite {c : Prop} [Decidable c] {x' : RuleOf σ α} {y' : RuleOf τ α} (yes : Mirrored R x y)
    (no : Mirrored R x' y') : Mirrored R (if c then x else x') (if c then y else y') := by
  split
  · exact yes
  · exact no

theorem looking (see : σ → γ) (see' : τ → γ) (same : ∀ s t, R s t → see s = see' t)
    {f : γ → RuleOf σ α} {g : γ → RuleOf τ α} (next : ∀ c, Mirrored R (f c) (g c)) :
    Mirrored R (get >>= fun s => f (see s)) (get >>= fun t => g (see' t)) := by
  intro s t together
  show MirroredResult R (f (see s) s) (g (see' t) t)
  rw [same s t together]
  exact next _ s t together

theorem step {f : σ → σ} {g : τ → τ} (keeps : ∀ s t, R s t → R (f s) (g t)) :
    Mirrored R (modify f) (modify g) := fun _ _ together => .ok () (keeps _ _ together)

theorem recover {f : Failure → RuleOf σ α} {g : Failure → RuleOf τ α} (h : Mirrored R x y)
    (next : ∀ e, Mirrored R (f e) (g e)) :
    Mirrored R (tryCatch x f) (tryCatch y g) := by
  intro s t together
  show MirroredResult R (EStateM.tryCatch x f s) (EStateM.tryCatch y g t)
  have first := h s t together
  unfold EStateM.tryCatch
  generalize x s = r at first ⊢
  generalize y t = r' at first ⊢
  cases first with
  | ok a together => exact .ok a together
  | error e together => exact next e _ _ together

end Mirrored

section Rules

variable [Reader σ] [Reader τ] {R : σ → τ → Prop} (m : Mirrors R)

include m

/-! ### Single tokens -/

theorem Mirrors.check (k : Kind) {s : σ} {t : τ} (together : R s t) :
    Reader.check k s = Reader.check k t := by
  rw [Reader.check, Reader.check, m.isAtEnd together, m.peek together]

theorem mirrored_atEnd : Mirrored R (atEnd : RuleOf σ Bool) atEnd :=
  Mirrored.looking Reader.isAtEnd Reader.isAtEnd (fun _ _ => m.isAtEnd) fun b => Mirrored.pure b

theorem mirrored_sees (k : Kind) : Mirrored R (sees k : RuleOf σ Bool) (sees k) :=
  Mirrored.looking (Reader.check k) (Reader.check k) (fun _ _ => m.check k) fun b => Mirrored.pure b

theorem mirrored_acceptAny? (kinds : List Kind) :
    Mirrored R (acceptAny? kinds : RuleOf σ (Option Token)) (acceptAny? kinds) := by
  intro s t together
  have seen : (kinds.any (Reader.check · s)) = kinds.any (Reader.check · t) :=
    congrArg kinds.any (funext fun k => m.check k together)
  rw [acceptAny?, acceptAny?, get_bind, get_bind, seen, m.peek together]
  exact Mirrored.ite ((Mirrored.step fun _ _ => m.advance).bind fun _ => Mirrored.pure _)
    (Mirrored.pure none) s t together

theorem mirrored_fail (cause : SyntaxFault) : Mirrored R (fail cause : RuleOf σ α) (fail cause) :=
  Mirrored.looking Reader.peek Reader.peek (fun _ _ => m.peek) fun place =>
    Mirrored.throw (.fault (.grammatical place cause))

theorem mirrored_expect (k : Kind) (cause : SyntaxFault) :
    Mirrored R (expect k cause : RuleOf σ Token) (expect k cause) :=
  (mirrored_acceptAny? m [k]).bind fun
    | some t => Mirrored.pure t
    | none => mirrored_fail m cause

theorem mirrored_note (place : Token) (cause : SyntaxFault) :
    Mirrored R (note place cause : RuleOf σ Unit) (note place cause) :=
  Mirrored.step fun _ _ => m.note _

theorem mirrored_noteHere (cause : SyntaxFault) :
    Mirrored R (noteHere cause : RuleOf σ Unit) (noteHere cause) :=
  Mirrored.looking Reader.peek Reader.peek (fun _ _ => m.peek) fun place =>
    mirrored_note m place cause

theorem mirrored_freshId : Mirrored R (freshId : RuleOf σ NodeId) freshId := by
  intro s t together
  show MirroredResult R (.ok (Reader.nextId s) (Reader.number s))
    (.ok (Reader.nextId t) (Reader.number t))
  rw [m.nextId together]
  exact .ok _ (m.number together)

/-! ### Expressions -/

theorem mirrored_commaSeparated {item : RuleOf σ α} {item' : RuleOf τ α} (h : Mirrored R item item')
    (excess : SyntaxFault) (fuel count : Nat) :
    Mirrored R (commaSeparated item excess count fuel)
      (commaSeparated item' excess count fuel) := by
  induction fuel generalizing count with
  | zero => exact Mirrored.throw _
  | succ fuel ih =>
    have rest := h.bind fun first => (mirrored_acceptAny? m [.symbol .comma]).bind fun o =>
      Mirrored.ite (c := o.isSome = true)
        ((ih (count + 1)).bind fun others => Mirrored.pure (R := R) (first :: others))
        (Mirrored.pure [first])
    exact Mirrored.ite ((mirrored_noteHere m excess).bind fun _ => rest) rest

theorem mirrored_listed {item : RuleOf σ α} {item' : RuleOf τ α} (h : Mirrored R item item')
    (excess : SyntaxFault) (fuel : Nat) :
    Mirrored R (listed item excess fuel) (listed item' excess fuel) :=
  (mirrored_sees m _).bind fun _ => Mirrored.ite (Mirrored.pure [])
    (mirrored_commaSeparated m h excess fuel 0)

section Nested

variable {nested : RuleOf σ Expr} {nested' : RuleOf τ Expr} (h : Mirrored R nested nested')

include h

theorem mirrored_primaryAfter (t : Token) {s : σ} {s' : τ} (together : R s s') :
    MirroredResult R
      ((primaryAfter nested t).elim (fail .expectExpression s) fun q => q (Reader.advance s))
      ((primaryAfter nested' t).elim (fail .expectExpression s')
        fun q => q (Reader.advance s')) := by
  have next := m.advance together
  unfold primaryAfter
  split
  · exact ((mirrored_expect m _ _).bind fun _ => (mirrored_expect m _ _).bind fun _ =>
      (mirrored_freshId m).bind fun _ => Mirrored.pure _) _ _ next
  · exact ((mirrored_freshId m).bind fun _ => Mirrored.pure _) _ _ next
  · exact ((mirrored_freshId m).bind fun _ => Mirrored.pure _) _ _ next
  · exact (h.bind fun _ => (mirrored_expect m _ _).bind fun _ => Mirrored.pure _) _ _ next
  · cases Ebnf.literalOf? t.kind with
    | some l => exact .ok _ next
    | none => exact mirrored_fail m _ _ _ together

theorem mirrored_primary : Mirrored R (primary nested) (primary nested') := by
  intro s t together
  rw [primary_run, primary_run, m.isAtEnd together, m.peek together]
  split
  · exact mirrored_fail m _ _ _ together
  · exact mirrored_primaryAfter m h _ together

theorem mirrored_suffixes (fuel : Nat) (e : Expr) :
    Mirrored R (suffixes nested fuel e) (suffixes nested' fuel e) := by
  induction fuel generalizing e with
  | zero => exact Mirrored.throw _
  | succ fuel ih =>
    refine (mirrored_acceptAny? m _).bind fun _ => Mirrored.ite ?_
      ((mirrored_acceptAny? m _).bind fun _ => Mirrored.ite ?_ (Mirrored.pure e))
    · exact (mirrored_listed m h _ _).bind fun _ => (mirrored_expect m _ _).bind fun _ => ih _
    · exact (mirrored_expect m _ _).bind fun _ => ih _

theorem mirrored_unary (fuel : Nat) : Mirrored R (unary nested fuel) (unary nested' fuel) := by
  induction fuel with
  | zero => exact Mirrored.throw _
  | succ fuel ih =>
    refine (mirrored_acceptAny? m _).bind fun
      | some operator => ih.bind fun _ => Mirrored.pure _
      | none => (mirrored_primary m h).bind fun e => mirrored_suffixes m h (fuel + 1) e

omit h in
theorem mirrored_chain (level : Level) (h : Mirrored R nested nested') (fuel : Nat) (left : Expr) :
    Mirrored R (chain level nested fuel left) (chain level nested' fuel left) := by
  induction fuel generalizing left with
  | zero => exact Mirrored.throw _
  | succ fuel ih =>
    refine (mirrored_acceptAny? m _).bind fun
      | some operator => h.bind fun _ => ih _
      | none => Mirrored.pure left

omit h in
theorem mirrored_binary (h : Mirrored R nested nested') (fuel : Nat) (ls : List Level) :
    Mirrored R (binary nested fuel ls) (binary nested' fuel ls) := by
  induction ls with
  | nil => exact h
  | cons level tighter ih => exact ih.bind fun left => mirrored_chain m level ih fuel left

theorem mirrored_assignment (fuel : Nat) :
    Mirrored R (assignment nested fuel) (assignment nested' fuel) := by
  refine (mirrored_binary m (mirrored_unary m h fuel) fuel levels).bind fun target =>
    (mirrored_acceptAny? m _).bind fun
      | none => Mirrored.pure target
      | some equals => h.bind fun value => ?_
  cases target with
  | «variable» id name => exact (mirrored_freshId m).bind fun _ => Mirrored.pure _
  | get object name => exact Mirrored.pure _
  | literal | unary | binary | logical | group | assign | call | set | this | super =>
    exact (mirrored_note m equals _).bind fun _ => Mirrored.pure _

end Nested

theorem mirrored_expression (fuel : Nat) :
    Mirrored R (expression fuel : RuleOf σ Expr) (expression fuel) := by
  induction fuel with
  | zero => exact Mirrored.throw _
  | succ fuel ih => exact mirrored_assignment m ih (fuel + 1)

theorem mirrored_wholeExpression (fuel : Nat) :
    Mirrored R (wholeExpression fuel : RuleOf σ Expr) (wholeExpression fuel) :=
  (mirrored_expression m fuel).bind fun e => (mirrored_atEnd m).bind fun _ =>
    Mirrored.ite ((mirrored_noteHere m _).bind fun _ => Mirrored.pure e) (Mirrored.pure e)

/-! ### Statements -/

structure Nested.Mirrored (R : σ → τ → Prop) (n : Nested σ) (n' : Nested τ) : Prop where
  statement : ∀ inLoop, Grammar.Mirrored R (n.statement inLoop) (n'.statement inLoop)
  block : ∀ inLoop, Grammar.Mirrored R (n.block inLoop) (n'.block inLoop)

theorem mirrored_optionalExpression (fuel : Nat) (follower : Kind) :
    Mirrored R (optionalExpression fuel follower : RuleOf σ (Option Expr))
      (optionalExpression fuel follower) :=
  (mirrored_sees m _).bind fun _ => Mirrored.ite (Mirrored.pure none)
    ((mirrored_expression m fuel).map some)

theorem mirrored_expressionStatement (fuel : Nat) :
    Mirrored R (expressionStatement fuel : RuleOf σ Stmt) (expressionStatement fuel) :=
  (mirrored_expression m fuel).bind fun _ => (mirrored_expect m _ _).bind fun _ => Mirrored.pure _

theorem mirrored_varDeclaration (fuel : Nat) :
    Mirrored R (varDeclaration fuel : RuleOf σ Stmt) (varDeclaration fuel) := by
  have ending : ∀ name initializer, Mirrored R
      (expect (.symbol .semicolon) .expectVariableEnd >>= fun _ =>
        (pure (.var name initializer) : RuleOf σ Stmt))
      (expect (.symbol .semicolon) .expectVariableEnd >>= fun _ => pure (.var name initializer)) :=
    fun _ _ => (mirrored_expect m _ _).bind fun _ => Mirrored.pure _
  exact (mirrored_expect m _ _).bind fun name => (mirrored_acceptAny? m _).bind fun _ =>
    Mirrored.ite (((mirrored_expression m fuel).map some).bind fun _ => ending name _)
      ((Mirrored.pure none).bind fun _ => ending name _)

theorem mirrored_forInitializer (fuel : Nat) :
    Mirrored R (forInitializer fuel : RuleOf σ (Option Stmt)) (forInitializer fuel) :=
  (mirrored_acceptAny? m _).bind fun _ => Mirrored.ite (Mirrored.pure none)
    ((mirrored_acceptAny? m _).bind fun _ => Mirrored.ite
      ((mirrored_varDeclaration m fuel).map some)
      ((mirrored_expressionStatement m fuel).map some))

theorem mirrored_superclass? : Mirrored R (superclass? : RuleOf σ (Option Expr)) superclass? :=
  (mirrored_acceptAny? m _).bind fun _ => Mirrored.ite
    ((mirrored_expect m _ _).bind fun _ => (mirrored_freshId m).bind fun _ => Mirrored.pure _)
    (Mirrored.pure none)

theorem mirrored_breakStatement (keyword : Token) (inLoop : Bool) :
    Mirrored R (breakStatement keyword inLoop : RuleOf σ Stmt) (breakStatement keyword inLoop) := by
  have ending : Mirrored R
      (expect (.symbol .semicolon) .expectBreakEnd >>= fun _ =>
        (pure (.break keyword) : RuleOf σ Stmt))
      (expect (.symbol .semicolon) .expectBreakEnd >>= fun _ => pure (.break keyword)) :=
    (mirrored_expect m _ _).bind fun _ => Mirrored.pure _
  exact Mirrored.ite ((mirrored_note m keyword _).bind fun _ => ending) ending

theorem mirrored_returnStatement (keyword : Token) (fuel : Nat) :
    Mirrored R (returnStatement keyword fuel : RuleOf σ Stmt) (returnStatement keyword fuel) :=
  (mirrored_optionalExpression m fuel _).bind fun _ => (mirrored_expect m _ _).bind fun _ =>
    Mirrored.pure _

theorem mirrored_printStatement (fuel : Nat) :
    Mirrored R (printStatement fuel : RuleOf σ Stmt) (printStatement fuel) :=
  (mirrored_expression m fuel).bind fun _ => (mirrored_expect m _ _).bind fun _ => Mirrored.pure _

section Statements

variable {n : Nested σ} {n' : Nested τ} (h : n.Mirrored R n') (fuel : Nat)

include h

theorem mirrored_forStatement : Mirrored R (forStatement n fuel) (forStatement n' fuel) :=
  (mirrored_expect m _ _).bind fun _ => (mirrored_forInitializer m fuel).bind fun _ =>
    (mirrored_optionalExpression m fuel _).bind fun _ => (mirrored_expect m _ _).bind fun _ =>
    (mirrored_optionalExpression m fuel _).bind fun _ => (mirrored_expect m _ _).bind fun _ =>
    (h.statement true).bind fun _ => Mirrored.pure _

theorem mirrored_ifStatement (inLoop : Bool) :
    Mirrored R (ifStatement n fuel inLoop) (ifStatement n' fuel inLoop) :=
  (mirrored_expect m _ _).bind fun _ => (mirrored_expression m fuel).bind fun _ =>
    (mirrored_expect m _ _).bind fun _ => (h.statement inLoop).bind fun _ =>
    (mirrored_acceptAny? m _).bind fun _ => Mirrored.ite
      (((h.statement inLoop).map some).bind fun _ => Mirrored.pure _)
      ((Mirrored.pure none).bind fun _ => Mirrored.pure _)

theorem mirrored_whileStatement : Mirrored R (whileStatement n fuel) (whileStatement n' fuel) :=
  (mirrored_expect m _ _).bind fun _ => (mirrored_expression m fuel).bind fun _ =>
    (mirrored_expect m _ _).bind fun _ => (h.statement true).bind fun _ => Mirrored.pure _

theorem mirrored_statement (inLoop : Bool) :
    Mirrored R (statement n fuel inLoop) (statement n' fuel inLoop) := by
  refine (mirrored_acceptAny? m _).bind fun
    | none => mirrored_expressionStatement m fuel
    | some t => ?_
  dsimp only
  split
  · exact mirrored_forStatement m h fuel
  · exact mirrored_ifStatement m h fuel inLoop
  · exact mirrored_whileStatement m h fuel
  · exact mirrored_breakStatement m t inLoop
  · exact mirrored_returnStatement m t fuel
  · exact mirrored_printStatement m fuel
  · exact (h.block inLoop).map _

theorem mirrored_routine (r : Routine) : Mirrored R (routine r n fuel) (routine r n' fuel) :=
  (mirrored_expect m _ _).bind fun _ => (mirrored_expect m _ _).bind fun _ =>
    (mirrored_listed m (mirrored_expect m _ _) _ fuel).bind fun _ =>
      (mirrored_expect m _ _).bind fun _ =>
    (mirrored_expect m _ _).bind fun _ => (h.block false).bind fun _ => Mirrored.pure _

theorem mirrored_methods : Mirrored R (methods n fuel) (methods n' fuel) := by
  induction fuel with
  | zero => exact Mirrored.throw _
  | succ fuel ih =>
    refine (mirrored_sees m _).bind fun _ => (mirrored_atEnd m).bind fun _ =>
      Mirrored.ite (Mirrored.pure []) ?_
    exact (mirrored_routine m h (fuel + 1) .method).bind fun _ => ih.bind fun _ => Mirrored.pure _

theorem mirrored_classDeclaration :
    Mirrored R (classDeclaration n fuel) (classDeclaration n' fuel) :=
  (mirrored_expect m _ _).bind fun _ => (mirrored_superclass? m).bind fun _ =>
    (mirrored_expect m _ _).bind fun _ => (mirrored_methods m h fuel).bind fun _ =>
    (mirrored_expect m _ _).bind fun _ => Mirrored.pure _

theorem mirrored_declarationOrFail (inLoop : Bool) :
    Mirrored R (declarationOrFail n fuel inLoop) (declarationOrFail n' fuel inLoop) := by
  refine (mirrored_acceptAny? m _).bind fun
    | none => mirrored_statement m h fuel inLoop
    | some t => ?_
  dsimp only
  split
  · exact mirrored_classDeclaration m h fuel
  · exact (mirrored_routine m h fuel .function).map _
  · exact mirrored_varDeclaration m fuel

theorem mirrored_declaration (inLoop : Bool) :
    Mirrored R (declaration n fuel inLoop) (declaration n' fuel inLoop) := by
  refine ((mirrored_declarationOrFail m h fuel inLoop).map some).recover fun
    | .fault d => ?_
    | .outOfFuel => Mirrored.throw _
  exact (Mirrored.step fun _ _ together => m.synchronize (m.note d together)).bind fun _ =>
    Mirrored.pure none

end Statements

theorem mirrored_declarations {one : RuleOf σ (Option Stmt)} {one' : RuleOf τ (Option Stmt)}
    (h : Mirrored R one one') (closer : Option Kind) (fuel : Nat) :
    Mirrored R (declarations closer one fuel) (declarations closer one' fuel) := by
  induction fuel with
  | zero => exact Mirrored.throw _
  | succ fuel ih =>
    have closed : Mirrored R (closer.elim (pure false) sees : RuleOf σ Bool)
        (closer.elim (pure false) sees) := by
      cases closer with
      | none => exact Mirrored.pure false
      | some k => exact mirrored_sees m k
    refine closed.bind fun _ => (mirrored_atEnd m).bind fun _ => Mirrored.ite (Mirrored.pure [])
      (h.bind fun
        | some s => ih.bind fun _ => Mirrored.pure _
        | none => ih)

theorem mirrored_block {one : RuleOf σ (Option Stmt)} {one' : RuleOf τ (Option Stmt)}
    (h : Mirrored R one one') (fuel : Nat) : Mirrored R (block one fuel) (block one' fuel) :=
  (mirrored_declarations m h _ fuel).bind fun _ => (mirrored_expect m _ _).bind fun _ =>
    Mirrored.pure _

theorem nested_mirrored (fuel : Nat) : (nested fuel : Nested σ).Mirrored R (nested fuel) := by
  induction fuel with
  | zero => exact ⟨fun _ => Mirrored.throw _, fun _ => Mirrored.throw _⟩
  | succ fuel ih =>
    exact ⟨fun inLoop => mirrored_statement m ih (fuel + 1) inLoop,
      fun inLoop => mirrored_block m (mirrored_declaration m ih (fuel + 1) inLoop) (fuel + 1)⟩

theorem mirrored_program (fuel : Nat) :
    Mirrored R (program fuel : RuleOf σ (List Stmt)) (program fuel) :=
  mirrored_declarations m (mirrored_declaration m (nested_mirrored m fuel) fuel false) none fuel

end Rules

/-! ### All rules -/

/-- The rules that a parse is made of, each at any depth. -/
inductive Production : {α : Type} → (∀ {σ : Type} [Reader σ], RuleOf σ α) → Prop
  | accept (kinds : List Kind) : Production (acceptAny? kinds)
  | expect (k : Kind) (cause : SyntaxFault) : Production (expect k cause)
  | primary (depth : Nat) : Production (primary (expression depth))
  | suffixes (depth fuel : Nat) (e : Expr) : Production (suffixes (expression depth) fuel e)
  | unary (depth fuel : Nat) : Production (unary (expression depth) fuel)
  | chain (depth fuel : Nat) (level : Level) (tighter : List Level) (left : Expr) :
      Production (chain level (binary (unary (expression depth) fuel) fuel tighter) fuel left)
  | binary (depth fuel : Nat) (ls : List Level) :
      Production (binary (unary (expression depth) fuel) fuel ls)
  | assignment (depth fuel : Nat) : Production (assignment (expression depth) fuel)
  | expression (depth : Nat) : Production (expression depth)
  | arguments (depth count fuel : Nat) :
      Production (commaSeparated (expression depth) .tooManyArguments count fuel)
  | parameters (count fuel : Nat) : Production
      (commaSeparated (Grammar.expect .identifier .expectParameterName) .tooManyParameters count fuel)
  | routine (r : Routine) (depth fuel : Nat) : Production (routine r (nested depth) fuel)
  | methods (depth fuel : Nat) : Production (methods (nested depth) fuel)
  | superclass : Production superclass?
  | classDeclaration (depth fuel : Nat) : Production (classDeclaration (nested depth) fuel)
  | varDeclaration (depth : Nat) : Production (varDeclaration depth)
  | expressionStatement (depth : Nat) : Production (expressionStatement depth)
  | optionalExpression (depth : Nat) (follower : Kind) :
      Production (optionalExpression depth follower)
  | forInitializer (depth : Nat) : Production (forInitializer depth)
  | forStatement (depth fuel : Nat) : Production (forStatement (nested depth) fuel)
  | ifStatement (depth fuel : Nat) (inLoop : Bool) :
      Production (ifStatement (nested depth) fuel inLoop)
  | whileStatement (depth fuel : Nat) : Production (whileStatement (nested depth) fuel)
  | breakStatement (keyword : Token) (inLoop : Bool) : Production (breakStatement keyword inLoop)
  | returnStatement (keyword : Token) (depth : Nat) : Production (returnStatement keyword depth)
  | printStatement (depth : Nat) : Production (printStatement depth)
  | statement (depth fuel : Nat) (inLoop : Bool) : Production (statement (nested depth) fuel inLoop)
  | declarationOrFail (depth fuel : Nat) (inLoop : Bool) :
      Production (declarationOrFail (nested depth) fuel inLoop)
  | declaration (depth fuel : Nat) (inLoop : Bool) :
      Production (declaration (nested depth) fuel inLoop)
  | declarations (closer : Option Kind) (depth fuel turns : Nat) (inLoop : Bool) :
      Production (declarations closer (declaration (nested depth) fuel inLoop) turns)
  | block (depth fuel : Nat) (inLoop : Bool) :
      Production (block (declaration (nested depth) fuel inLoop) fuel)
  | program (depth : Nat) : Production (program depth)
  | wholeExpression (depth : Nat) : Production (wholeExpression depth)

/-- A rule comes to the same with two readers that tell the same. -/
theorem Production.mirrored [Reader σ] [Reader τ] {R : σ → τ → Prop} (m : Mirrors R)
    {rule : ∀ {σ : Type} [Reader σ], RuleOf σ α} (h : Production @rule) :
    Mirrored R (rule : RuleOf σ α) rule := by
  have unary : ∀ depth fuel, Mirrored R
      (Grammar.unary (Grammar.expression depth) fuel : RuleOf σ Expr)
      (Grammar.unary (Grammar.expression depth) fuel) :=
    fun depth fuel => mirrored_unary m (mirrored_expression m depth) fuel
  have declaration : ∀ depth fuel inLoop, Mirrored R
      (Grammar.declaration (nested depth) fuel inLoop : RuleOf σ (Option Stmt))
      (Grammar.declaration (nested depth) fuel inLoop) :=
    fun depth fuel inLoop => mirrored_declaration m (nested_mirrored m depth) fuel inLoop
  cases h with
  | accept kinds => exact mirrored_acceptAny? m kinds
  | expect k cause => exact mirrored_expect m k cause
  | primary depth => exact mirrored_primary m (mirrored_expression m depth)
  | suffixes depth fuel e => exact mirrored_suffixes m (mirrored_expression m depth) fuel e
  | unary depth fuel => exact unary depth fuel
  | chain depth fuel level tighter left =>
    exact mirrored_chain m level (mirrored_binary m (unary depth fuel) fuel tighter) fuel left
  | binary depth fuel ls => exact mirrored_binary m (unary depth fuel) fuel ls
  | assignment depth fuel => exact mirrored_assignment m (mirrored_expression m depth) fuel
  | expression depth => exact mirrored_expression m depth
  | arguments depth count fuel =>
    exact mirrored_commaSeparated m (mirrored_expression m depth) _ fuel count
  | parameters count fuel => exact mirrored_commaSeparated m (mirrored_expect m _ _) _ fuel count
  | routine r depth fuel => exact mirrored_routine m (nested_mirrored m depth) fuel r
  | methods depth fuel => exact mirrored_methods m (nested_mirrored m depth) fuel
  | superclass => exact mirrored_superclass? m
  | classDeclaration depth fuel => exact mirrored_classDeclaration m (nested_mirrored m depth) fuel
  | varDeclaration depth => exact mirrored_varDeclaration m depth
  | expressionStatement depth => exact mirrored_expressionStatement m depth
  | optionalExpression depth follower => exact mirrored_optionalExpression m depth follower
  | forInitializer depth => exact mirrored_forInitializer m depth
  | forStatement depth fuel => exact mirrored_forStatement m (nested_mirrored m depth) fuel
  | ifStatement depth fuel inLoop =>
    exact mirrored_ifStatement m (nested_mirrored m depth) fuel inLoop
  | whileStatement depth fuel => exact mirrored_whileStatement m (nested_mirrored m depth) fuel
  | breakStatement keyword inLoop => exact mirrored_breakStatement m keyword inLoop
  | returnStatement keyword depth => exact mirrored_returnStatement m keyword depth
  | printStatement depth => exact mirrored_printStatement m depth
  | statement depth fuel inLoop => exact mirrored_statement m (nested_mirrored m depth) fuel inLoop
  | declarationOrFail depth fuel inLoop =>
    exact mirrored_declarationOrFail m (nested_mirrored m depth) fuel inLoop
  | declaration depth fuel inLoop => exact declaration depth fuel inLoop
  | declarations closer depth fuel turns inLoop =>
    exact mirrored_declarations m (declaration depth fuel inLoop) closer turns
  | block depth fuel inLoop => exact mirrored_block m (declaration depth fuel inLoop) fuel
  | program depth => exact mirrored_program m depth
  | wholeExpression depth => exact mirrored_wholeExpression m depth

end Lox.Grammar
