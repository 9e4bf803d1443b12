import Lox.Proofs.Grammar.Soundness.Expression
import Lox.Proofs.Tree.Paired

/-!
# Rules on paired tokens

What a rule does depends on kinds and texts of tokens only. `Parallel lines x y R` says that two
rules that start from tokens in step end in the same way, with trees related by `R`; if they give
up, they do so at the tokens that they stand at. Every rule of the grammar goes with itself
(`parallel_program`).
-/

namespace Lox.Grammar

open EStateM (Result)

/-- Two parses in the middle of tokens that differ in their lines. -/
structure PairedState (lines : Nat → Nat → Prop) (s s' : State) : Prop where
  rest : List.Forall₂ (PairedToken (.ofLines lines)) s.rest s'.rest
  stop : PairedToken (.ofLines lines) s.stop s'.stop
  noted : List.Forall₂ (PairedDiagnostic (.ofLines lines)) s.noted s'.noted

variable {lines : Nat → Nat → Prop}

/-- Both have read everything, or what they read next goes together. -/
theorem PairedState.next {s s' : State} (h : PairedState lines s s') :
    (s.rest = [] ∧ s'.rest = []) ∨ ∃ t t' ts ts', s.rest = t :: ts ∧ s'.rest = t' :: ts' ∧
      PairedToken (.ofLines lines) t t' ∧ PairedState lines { s with rest := ts }
        { s' with rest := ts' } := by
  have rest := h.rest
  cases read : s.rest with
  | nil =>
    rw [read] at rest
    exact .inl ⟨rfl, List.forall₂_nil_left_iff.1 rest⟩
  | cons t ts =>
    rw [read] at rest
    obtain ⟨t', ts', first, others, read'⟩ := List.forall₂_cons_left_iff.1 rest
    exact .inr ⟨t, t', ts, ts', rfl, read', first, { h with rest := others }⟩

theorem PairedState.peek {s s' : State} (h : PairedState lines s s') :
    PairedToken (.ofLines lines) s.peek s'.peek := by
  unfold State.peek
  rcases h.next with ⟨read, read'⟩ | ⟨t, t', ts, ts', read, read', first, -⟩
  · rw [read, read']
    exact h.stop
  · rw [read, read']
    exact first

/-- Both rules succeeded, gave up where they stood or ran out of fuel. -/
inductive ParallelResult {α β : Type} (lines : Nat → Nat → Prop) (R : α → β → Prop) :
    Result Failure State α → Result Failure State β → Prop
  | ok {a : α} {b : β} {t t' : State} (state : PairedState lines t t') (holds : R a b) :
      ParallelResult lines R (.ok a t) (.ok b t')
  | fault {t t' : State} (state : PairedState lines t t') (cause : SyntaxFault) :
      ParallelResult lines R (.error (.fault (.grammatical t.peek cause)) t)
        (.error (.fault (.grammatical t'.peek cause)) t')
  | outOfFuel {t t' : State} (state : PairedState lines t t') :
      ParallelResult lines R (.error .outOfFuel t) (.error .outOfFuel t')

def Parallel {α β : Type} (lines : Nat → Nat → Prop) (x : Rule α) (y : Rule β)
    (R : α → β → Prop) : Prop :=
  ∀ s s', PairedState lines s s' → ParallelResult lines R (x s) (y s')

namespace Parallel

variable {α β γ δ : Type} {R : α → β → Prop} {Q : γ → δ → Prop} {x : Rule α} {y : Rule β}
  {f : α → Rule γ} {g : β → Rule δ}

theorem pure {a : α} {b : β} (holds : R a b) :
    Parallel lines (Pure.pure a : Rule α) (Pure.pure b : Rule β) R :=
  fun _ _ state => .ok state holds

theorem outOfFuel :
    Parallel lines (MonadExcept.throw Failure.outOfFuel : Rule α)
      (MonadExcept.throw Failure.outOfFuel : Rule β) R :=
  fun _ _ state => .outOfFuel state

theorem fail (cause : SyntaxFault) :
    Parallel lines (Grammar.fail cause : Rule α) (Grammar.fail cause : Rule β) R :=
  fun _ _ state => .fault state cause

theorem bind (first : Parallel lines x y R)
    (next : ∀ a b, R a b → Parallel lines (f a) (g b) Q) :
    Parallel lines (x >>= f) (y >>= g) Q := by
  intro s s' state
  have start := first s s' state
  show ParallelResult lines Q (EStateM.bind x f s) (EStateM.bind y g s')
  unfold EStateM.bind
  generalize x s = r at start ⊢
  generalize y s' = r' at start ⊢
  cases start with
  | ok state holds => exact next _ _ holds _ _ state
  | fault state cause => exact .fault state cause
  | outOfFuel state => exact .outOfFuel state

theorem map {f : α → γ} {g : β → δ} (h : Parallel lines x y R)
    (sub : ∀ a b, R a b → Q (f a) (g b)) : Parallel lines (f <$> x) (g <$> y) Q := by
  rw [← bind_pure_comp, ← bind_pure_comp]
  exact bind h fun a b holds => pure (sub a b holds)

/-- Both look at something that is the same in paired states. -/
theorem looking {ε : Type} (look : State → ε) {f : ε → Rule γ} {g : ε → Rule δ}
    (same : ∀ s s', PairedState lines s s' → look s = look s')
    (h : ∀ e, Parallel lines (f e) (g e) Q) :
    Parallel lines ((do return look (← get)) >>= f) ((do return look (← get)) >>= g) Q := by
  intro s s' state
  have here := h (look s') s s' state
  show ParallelResult lines Q (f (look s) s) (g (look s') s')
  rw [same s s' state]
  exact here

theorem sees (k : Kind) {f : Bool → Rule γ} {g : Bool → Rule δ}
    (h : ∀ b, Parallel lines (f b) (g b) Q) :
    Parallel lines (Grammar.sees k >>= f) (Grammar.sees k >>= g) Q := by
  apply looking (Reader.check k) _ h
  intro s s' state
  rw [check_eq, check_eq]
  rcases state.next with ⟨read, read'⟩ | ⟨t, t', ts, ts', read, read', first, -⟩
  · rw [read, read']
  · simp only [read, read', List.head?_cons, Option.any_some, first.kind]

theorem atEnd {f : Bool → Rule γ} {g : Bool → Rule δ} (h : ∀ b, Parallel lines (f b) (g b) Q) :
    Parallel lines (Grammar.atEnd >>= f) (Grammar.atEnd >>= g) Q := by
  apply looking (fun s => s.rest.isEmpty) _ h
  intro s s' state
  rcases state.next with ⟨read, read'⟩ | ⟨t, t', ts, ts', read, read', -, -⟩
  · rw [read, read']
  · rw [read, read']
    rfl

theorem ite {c : Prop} [Decidable c] {yes no : Rule γ} {yes' no' : Rule δ}
    (h : Parallel lines yes yes' Q) (k : Parallel lines no no' Q) :
    Parallel lines (if c then yes else no) (if c then yes' else no') Q := by
  split
  · exact h
  · exact k

theorem accepting {kinds : List Kind} {f : Option Token → Rule γ} {g : Option Token → Rule δ}
    (yes : ∀ t t', PairedToken (.ofLines lines) t t' → Parallel lines (f (some t)) (g (some t')) Q)
    (no : Parallel lines (f none) (g none) Q) :
    Parallel lines (acceptAny? kinds >>= f) (acceptAny? kinds >>= g) Q := by
  intro s s' state
  rcases state.next with ⟨read, read'⟩ | ⟨t, t', ts, ts', read, read', first, others⟩
  · rw [bind_of_ok (acceptAny?_nil kinds s read), bind_of_ok (acceptAny?_nil kinds s' read')]
    exact no s s' state
  · by_cases mem : t.kind ∈ kinds
    · rw [bind_of_ok ((acceptAny?_cons kinds t s ts read).trans (if_pos mem)),
        bind_of_ok ((acceptAny?_cons kinds t' s' ts' read').trans (if_pos (first.kind ▸ mem)))]
      exact yes t t' first _ _ others
    · rw [bind_of_ok ((acceptAny?_cons kinds t s ts read).trans (if_neg mem)),
        bind_of_ok ((acceptAny?_cons kinds t' s' ts' read').trans (if_neg (first.kind ▸ mem)))]
      exact no s s' state

theorem expecting {k : Kind} {cause : SyntaxFault} {f : Token → Rule γ} {g : Token → Rule δ}
    (h : ∀ t t', PairedToken (.ofLines lines) t t' → Parallel lines (f t) (g t') Q) :
    Parallel lines (expect k cause >>= f) (expect k cause >>= g) Q := by
  rw [expect, accept?, bind_assoc, bind_assoc]
  refine accepting (fun t t' paired => ?_) ?_
  · simpa only [pure_bind] using h t t' paired
  · rw [fail_bind, fail_bind]
    exact fail cause

theorem noting {place place' : Token} {cause : SyntaxFault} {f : Unit → Rule γ}
    {g : Unit → Rule δ} (paired : PairedToken (.ofLines lines) place place')
    (h : Parallel lines (f ()) (g ()) Q) :
    Parallel lines (note place cause >>= f) (note place' cause >>= g) Q :=
  fun _ _ state => h _ _
    { state with noted := List.rel_append state.noted (.cons (.grammatical paired cause) .nil) }

theorem notingHere {cause : SyntaxFault} {f : Unit → Rule γ} {g : Unit → Rule δ}
    (h : Parallel lines (f ()) (g ()) Q) :
    Parallel lines (noteHere cause >>= f) (noteHere cause >>= g) Q :=
  fun _ _ state => noting state.peek h _ _ state

theorem numbering {f : NodeId → Rule γ} {g : NodeId → Rule δ}
    (h : ∀ i j, Parallel lines (f i) (g j) Q) :
    Parallel lines (freshId >>= f) (freshId >>= g) Q :=
  fun s s' state => h s.nextId s'.nextId _ _ { state with }

end Parallel

/-! ### Expressions -/

/-- The same expression but for identities and lines. -/
abbrev Matching (lines : Nat → Nat → Prop) : Expr → Expr → Prop := PairedExpr (.ofLines lines)

theorem parallel_commaSeparated {α β : Type} {item : Rule α} {item' : Rule β} {R : α → β → Prop}
    (h : Parallel lines item item' R) (excess : SyntaxFault) (count fuel : Nat) :
    Parallel lines (commaSeparated item excess count fuel) (commaSeparated item' excess count fuel)
      (List.Forall₂ R) := by
  induction fuel generalizing count with
  | zero => exact Parallel.outOfFuel
  | succ fuel ih =>
    have items : Parallel lines
        (item >>= fun first => accept? (.symbol .comma) >>= fun o => if o.isSome = true then
          (do return first :: (← commaSeparated item excess (count + 1) fuel)) else pure [first])
        (item' >>= fun first => accept? (.symbol .comma) >>= fun o => if o.isSome = true then
          (do return first :: (← commaSeparated item' excess (count + 1) fuel)) else pure [first])
        (List.Forall₂ R) := by
      refine h.bind fun first first' same => Parallel.accepting (fun _ _ _ => ?_) ?_
      · exact (ih (count + 1)).bind fun _ _ others => Parallel.pure (.cons same others)
      · exact Parallel.pure (.cons same .nil)
    exact Parallel.ite (Parallel.notingHere items) items

theorem parallel_listed {α β : Type} {item : Rule α} {item' : Rule β} {R : α → β → Prop}
    (h : Parallel lines item item' R) (excess : SyntaxFault) (fuel : Nat) :
    Parallel lines (listed item excess fuel) (listed item' excess fuel) (List.Forall₂ R) :=
  Parallel.sees _ fun _ =>
    Parallel.ite (Parallel.pure .nil) (parallel_commaSeparated h excess 0 fuel)

/-- What follows the first token of a primary. -/
theorem parallel_primaryAfter {nested : Rule Expr}
    (h : Parallel lines nested nested (Matching lines)) {t t' : Token}
    (paired : PairedToken (.ofLines lines) t t') :
    Option.Rel (fun x y => Parallel lines x y (Matching lines)) (primaryAfter nested t)
      (primaryAfter nested t') := by
  unfold primaryAfter
  rw [← paired.kind]
  split
  · exact .some <| Parallel.expecting fun _ _ _ => Parallel.expecting fun _ _ method =>
      Parallel.numbering fun _ _ => Parallel.pure (.super trivial paired method)
  · exact .some <| Parallel.numbering fun _ _ => Parallel.pure (.this trivial paired)
  · exact .some <| Parallel.numbering fun _ _ => Parallel.pure (.variable trivial paired)
  · exact .some <| h.bind fun _ _ inner => Parallel.expecting fun _ _ _ =>
      Parallel.pure (.group inner)
  · cases Ebnf.literalOf? t.kind with
    | none => exact .none
    | some l => exact .some (Parallel.pure (.literal l))

section Nested

variable {nested : Rule Expr} (h : Parallel lines nested nested (Matching lines))

include h

theorem parallel_primary : Parallel lines (primary nested) (primary nested) (Matching lines) := by
  intro s s' state
  rcases state.next with ⟨read, read'⟩ | ⟨t, t', ts, ts', read, read', first, others⟩
  · rw [primary_nil nested s read, primary_nil nested s' read']
    exact Parallel.fail _ s s' state
  · rw [primary_cons nested t s ts read, primary_cons nested t' s' ts' read']
    have after := parallel_primaryAfter h first
    generalize primaryAfter nested t = x at after ⊢
    generalize primaryAfter nested t' = y at after ⊢
    cases after with
    | none => exact Parallel.fail _ s s' state
    | some together => exact together _ _ others

theorem parallel_suffixes (fuel : Nat) {e e' : Expr} (same : Matching lines e e') :
    Parallel lines (suffixes nested fuel e) (suffixes nested fuel e') (Matching lines) := by
  induction fuel generalizing e e' with
  | zero => exact Parallel.outOfFuel
  | succ fuel ih =>
    refine Parallel.accepting (fun _ _ _ => ?_) (Parallel.accepting (fun _ _ _ => ?_) ?_)
    · exact (parallel_listed h _ _).bind fun _ _ arguments => Parallel.expecting fun _ _ paren =>
        ih (.call same paren arguments)
    · exact Parallel.expecting fun _ _ name => ih (.get same name)
    · exact Parallel.pure same

theorem parallel_unary (fuel : Nat) :
    Parallel lines (unary nested fuel) (unary nested fuel) (Matching lines) := by
  induction fuel with
  | zero => exact Parallel.outOfFuel
  | succ fuel ih =>
    refine Parallel.accepting (fun _ _ operator => ?_) ?_
    · exact ih.bind fun _ _ right => Parallel.pure (.unary operator right)
    · exact (parallel_primary h).bind fun _ _ same => parallel_suffixes h (fuel + 1) same

omit h in
theorem parallel_chain {level : Level} (mem : level ∈ levels) {operand : Rule Expr}
    (h : Parallel lines operand operand (Matching lines)) (fuel : Nat) {left left' : Expr}
    (same : Matching lines left left') :
    Parallel lines (chain level operand fuel left) (chain level operand fuel left')
      (Matching lines) := by
  induction fuel generalizing left left' with
  | zero => exact Parallel.outOfFuel
  | succ fuel ih =>
    refine Parallel.accepting (fun _ _ operator => ?_) (Parallel.pure same)
    refine h.bind fun right right' second => ih ?_
    have node : level.node = .binary ∨ level.node = .logical := by
      simp only [levels, List.mem_cons, List.not_mem_nil, or_false] at mem
      rcases mem with rfl | rfl | rfl | rfl | rfl | rfl <;> simp
    rcases node with node | node <;> rw [node]
    · exact .binary same operator second
    · exact .logical same operator second

omit h in
theorem parallel_binary {operand : Rule Expr} (h : Parallel lines operand operand (Matching lines))
    (fuel : Nat) (ls : List Level) (sub : ∀ l ∈ ls, l ∈ levels) :
    Parallel lines (binary operand fuel ls) (binary operand fuel ls) (Matching lines) := by
  induction ls with
  | nil => exact h
  | cons level tighter ih =>
    have inner := ih fun l mem => sub l (List.mem_cons_of_mem _ mem)
    exact inner.bind fun _ _ left =>
      parallel_chain (sub level List.mem_cons_self) inner fuel left

theorem parallel_assignment (fuel : Nat) :
    Parallel lines (assignment nested fuel) (assignment nested fuel) (Matching lines) := by
  refine (parallel_binary (parallel_unary h fuel) fuel levels fun _ mem => mem).bind
    fun target target' same => Parallel.accepting (fun _ _ equals => ?_) (Parallel.pure same)
  refine h.bind fun value value' right => ?_
  cases same with
  | «variable» _ named =>
    exact Parallel.numbering fun _ _ => Parallel.pure (.assign trivial named right)
  | get owner named => exact Parallel.pure (.set owner named right)
  | literal l => exact Parallel.noting equals (Parallel.pure (.literal l))
  | unary symbol operand => exact Parallel.noting equals (Parallel.pure (.unary symbol operand))
  | binary first symbol second =>
    exact Parallel.noting equals (Parallel.pure (.binary first symbol second))
  | logical first symbol second =>
    exact Parallel.noting equals (Parallel.pure (.logical first symbol second))
  | group inner => exact Parallel.noting equals (Parallel.pure (.group inner))
  | assign node named value =>
    exact Parallel.noting equals (Parallel.pure (.assign node named value))
  | call called place given =>
    exact Parallel.noting equals (Parallel.pure (.call called place given))
  | set owner named value => exact Parallel.noting equals (Parallel.pure (.set owner named value))
  | this node place => exact Parallel.noting equals (Parallel.pure (.this node place))
  | super node place named =>
    exact Parallel.noting equals (Parallel.pure (.super node place named))

end Nested

theorem parallel_expression (fuel : Nat) :
    Parallel lines (expression fuel) (expression fuel) (Matching lines) := by
  induction fuel with
  | zero => exact Parallel.outOfFuel
  | succ fuel ih => exact parallel_assignment ih (fuel + 1)

/-! ### Statements -/

abbrev MatchingStmt (lines : Nat → Nat → Prop) : Stmt → Stmt → Prop :=
  PairedStmt (.ofLines lines)

abbrev MatchingBody (lines : Nat → Nat → Prop) : List Stmt → List Stmt → Prop :=
  PairedBody (.ofLines lines)

structure Nested.Parallel (lines : Nat → Nat → Prop) (n : Nested State) : Prop where
  statement : ∀ inLoop,
    Grammar.Parallel lines (n.statement inLoop) (n.statement inLoop) (MatchingStmt lines)
  block : ∀ inLoop,
    Grammar.Parallel lines (n.block inLoop) (n.block inLoop) (MatchingBody lines)

theorem parallel_someExpression (fuel : Nat) :
    Parallel lines (some <$> expression fuel) (some <$> expression fuel)
      (Option.Rel (Matching lines)) :=
  (parallel_expression fuel).map fun _ _ same => .some same

theorem parallel_optionalExpression (fuel : Nat) (follower : Kind) :
    Parallel lines (optionalExpression fuel follower) (optionalExpression fuel follower)
      (Option.Rel (Matching lines)) :=
  Parallel.sees _ fun _ => Parallel.ite (Parallel.pure .none) (parallel_someExpression fuel)

theorem parallel_expressionStatement (fuel : Nat) :
    Parallel lines (expressionStatement fuel) (expressionStatement fuel) (MatchingStmt lines) :=
  (parallel_expression fuel).bind fun _ _ same => Parallel.expecting fun _ _ _ =>
    Parallel.pure (.expression same)

theorem parallel_varDeclaration (fuel : Nat) :
    Parallel lines (varDeclaration fuel) (varDeclaration fuel) (MatchingStmt lines) := by
  refine Parallel.expecting fun _ _ name => Parallel.accepting (fun _ _ _ => ?_) ?_
  · exact (parallel_someExpression fuel).bind fun _ _ value => Parallel.expecting fun _ _ _ =>
      Parallel.pure (.var name value)
  · exact (Parallel.pure (R := Option.Rel (Matching lines)) .none).bind fun _ _ value =>
      Parallel.expecting fun _ _ _ => Parallel.pure (.var name value)

theorem parallel_forInitializer (fuel : Nat) :
    Parallel lines (forInitializer fuel) (forInitializer fuel)
      (Option.Rel (MatchingStmt lines)) := by
  refine Parallel.accepting (fun _ _ _ => Parallel.pure .none)
    (Parallel.accepting (fun _ _ _ => ?_) ?_)
  · exact (parallel_varDeclaration fuel).map fun _ _ same => .some same
  · exact (parallel_expressionStatement fuel).map fun _ _ same => .some same

theorem matching_forLoop {initializer initializer' : Option Stmt}
    {condition condition' increment increment' : Option Expr} {body body' : Stmt}
    (first : Option.Rel (MatchingStmt lines) initializer initializer')
    (test : Option.Rel (Matching lines) condition condition')
    (step : Option.Rel (Matching lines) increment increment')
    (lap : MatchingStmt lines body body') :
    MatchingStmt lines (forLoop initializer condition increment body)
      (forLoop initializer' condition' increment' body') := by
  have tests : Matching lines (condition.getD (.literal (.bool true)))
      (condition'.getD (.literal (.bool true))) := by
    cases test with
    | none => exact .literal _
    | some same => exact same
  have loops : ∀ {b b' : Stmt}, MatchingStmt lines b b' →
      MatchingStmt lines (forLoop initializer condition none b)
        (forLoop initializer' condition' none b') := by
    intro b b' same
    cases first with
    | none => exact .while tests same
    | some start => exact .block (.cons start (.cons (.while tests same) .nil))
  cases step with
  | none => exact loops lap
  | some same => exact loops (.block (.cons lap (.cons (.expression same) .nil)))

theorem parallel_superclass? :
    Parallel lines superclass? superclass? (Option.Rel (Matching lines)) := by
  refine Parallel.accepting (fun _ _ _ => ?_) (Parallel.pure .none)
  exact Parallel.expecting fun _ _ name => Parallel.numbering fun _ _ =>
    Parallel.pure (.some (.variable trivial name))

section Statements

variable {n : Nested State} (h : n.Parallel lines) (fuel : Nat)

include h

theorem parallel_forStatement :
    Parallel lines (forStatement n fuel) (forStatement n fuel) (MatchingStmt lines) :=
  Parallel.expecting fun _ _ _ => (parallel_forInitializer fuel).bind fun _ _ first =>
    (parallel_optionalExpression fuel _).bind fun _ _ test => Parallel.expecting fun _ _ _ =>
    (parallel_optionalExpression fuel _).bind fun _ _ step => Parallel.expecting fun _ _ _ =>
    (h.statement true).bind fun _ _ lap => Parallel.pure (matching_forLoop first test step lap)

theorem parallel_ifStatement (inLoop : Bool) :
    Parallel lines (ifStatement n fuel inLoop) (ifStatement n fuel inLoop)
      (MatchingStmt lines) := by
  refine Parallel.expecting fun _ _ _ => (parallel_expression fuel).bind fun _ _ test =>
    Parallel.expecting fun _ _ _ => (h.statement inLoop).bind fun _ _ yes =>
    Parallel.accepting (fun _ _ _ => ?_) ?_
  · exact ((h.statement inLoop).map (Q := Option.Rel (MatchingStmt lines))
      fun _ _ same => .some same).bind fun _ _ no => Parallel.pure (.ite test yes no)
  · exact (Parallel.pure (R := Option.Rel (MatchingStmt lines)) .none).bind fun _ _ no =>
      Parallel.pure (.ite test yes no)

theorem parallel_whileStatement :
    Parallel lines (whileStatement n fuel) (whileStatement n fuel) (MatchingStmt lines) :=
  Parallel.expecting fun _ _ _ => (parallel_expression fuel).bind fun _ _ test =>
    Parallel.expecting fun _ _ _ => (h.statement true).bind fun _ _ lap =>
    Parallel.pure (.while test lap)

omit h in
theorem parallel_breakStatement {keyword keyword' : Token}
    (paired : PairedToken (.ofLines lines) keyword keyword') (inLoop : Bool) :
    Parallel lines (breakStatement keyword inLoop) (breakStatement keyword' inLoop)
      (MatchingStmt lines) := by
  have ending : Parallel lines
      (expect (.symbol .semicolon) .expectBreakEnd >>= fun _ => pure (Stmt.break keyword))
      (expect (.symbol .semicolon) .expectBreakEnd >>= fun _ => pure (Stmt.break keyword'))
      (MatchingStmt lines) :=
    Parallel.expecting fun _ _ _ => Parallel.pure (.break paired)
  exact Parallel.ite (Parallel.noting paired ending) ending

omit h in
theorem parallel_returnStatement {keyword keyword' : Token}
    (paired : PairedToken (.ofLines lines) keyword keyword') :
    Parallel lines (returnStatement keyword fuel) (returnStatement keyword' fuel)
      (MatchingStmt lines) :=
  (parallel_optionalExpression fuel _).bind fun _ _ value => Parallel.expecting fun _ _ _ =>
    Parallel.pure (.return paired value)

omit h in
theorem parallel_printStatement :
    Parallel lines (printStatement fuel) (printStatement fuel) (MatchingStmt lines) :=
  (parallel_expression fuel).bind fun _ _ same => Parallel.expecting fun _ _ _ =>
    Parallel.pure (.print same)

theorem parallel_statement (inLoop : Bool) :
    Parallel lines (statement n fuel inLoop) (statement n fuel inLoop) (MatchingStmt lines) := by
  refine Parallel.accepting (fun t t' paired => ?_) (parallel_expressionStatement fuel)
  dsimp only
  rw [← paired.kind]
  split
  · exact parallel_forStatement h fuel
  · exact parallel_ifStatement h fuel inLoop
  · exact parallel_whileStatement h fuel
  · exact parallel_breakStatement paired inLoop
  · exact parallel_returnStatement fuel paired
  · exact parallel_printStatement fuel
  · exact (h.block inLoop).map fun _ _ same => .block same

theorem parallel_routine (r : Routine) :
    Parallel lines (routine r n fuel) (routine r n fuel) (PairedDecl (.ofLines lines)) := by
  have parameter : Parallel lines (expect .identifier .expectParameterName)
      (expect .identifier .expectParameterName) (PairedToken (.ofLines lines)) := by
    rw [← bind_pure (expect .identifier .expectParameterName)]
    exact Parallel.expecting fun _ _ paired => Parallel.pure paired
  exact Parallel.expecting fun _ _ name => Parallel.expecting fun _ _ _ =>
    (parallel_listed parameter _ fuel).bind fun _ _ params => Parallel.expecting fun _ _ _ =>
    Parallel.expecting fun _ _ _ => (h.block false).bind fun _ _ body =>
    Parallel.pure (.mk name params body)

theorem parallel_methods :
    Parallel lines (methods n fuel) (methods n fuel)
      (List.Forall₂ (PairedDecl (.ofLines lines))) := by
  induction fuel with
  | zero => exact Parallel.outOfFuel
  | succ fuel ih =>
    refine Parallel.sees _ fun _ => Parallel.atEnd fun _ =>
      Parallel.ite (Parallel.pure .nil) ?_
    exact (parallel_routine h (fuel + 1) .method).bind fun _ _ first =>
      ih.bind fun _ _ others => Parallel.pure (.cons first others)

theorem parallel_classDeclaration :
    Parallel lines (classDeclaration n fuel) (classDeclaration n fuel) (MatchingStmt lines) :=
  Parallel.expecting fun _ _ name => parallel_superclass?.bind fun _ _ superclass =>
    Parallel.expecting fun _ _ _ => (parallel_methods h fuel).bind fun _ _ body =>
    Parallel.expecting fun _ _ _ => Parallel.pure (.class name superclass body)

theorem parallel_declarationOrFail (inLoop : Bool) :
    Parallel lines (declarationOrFail n fuel inLoop) (declarationOrFail n fuel inLoop)
      (MatchingStmt lines) := by
  refine Parallel.accepting (fun t t' paired => ?_) (parallel_statement h fuel inLoop)
  dsimp only
  rw [← paired.kind]
  split
  · exact parallel_classDeclaration h fuel
  · exact (parallel_routine h fuel .function).map fun _ _ same => .function same
  · exact parallel_varDeclaration fuel

omit h in
theorem paired_skipFrom (previous : Kind) {ts ts' : List Token}
    (h : List.Forall₂ (PairedToken (.ofLines lines)) ts ts') :
    List.Forall₂ (PairedToken (.ofLines lines)) (skipFrom previous ts) (skipFrom previous ts') := by
  induction h generalizing previous with
  | nil => exact .nil
  | @cons t t' ts ts' first others ih =>
    unfold skipFrom
    rw [← first.kind]
    split
    · exact .cons first others
    · exact ih t.kind

omit h in
theorem paired_resume {ts ts' : List Token}
    (h : List.Forall₂ (PairedToken (.ofLines lines)) ts ts') :
    List.Forall₂ (PairedToken (.ofLines lines)) (resume ts) (resume ts') := by
  cases h with
  | nil => exact .nil
  | @cons t t' ts ts' first others =>
    show List.Forall₂ _ (skipFrom t.kind ts) (skipFrom t'.kind ts')
    rw [← first.kind]
    exact paired_skipFrom t.kind others

theorem parallel_declaration (inLoop : Bool) :
    Parallel lines (declaration n fuel inLoop) (declaration n fuel inLoop)
      (Option.Rel (MatchingStmt lines)) := by
  have inner : Parallel lines (some <$> declarationOrFail n fuel inLoop)
      (some <$> declarationOrFail n fuel inLoop) (Option.Rel (MatchingStmt lines)) :=
    (parallel_declarationOrFail h fuel inLoop).map fun _ _ same => .some same
  intro s s' state
  have done := inner s s' state
  show ParallelResult lines _ (EStateM.tryCatch _ _ s) (EStateM.tryCatch _ _ s')
  unfold EStateM.tryCatch
  generalize (some <$> declarationOrFail n fuel inLoop) s = r at done ⊢
  generalize (some <$> declarationOrFail n fuel inLoop) s' = r' at done ⊢
  cases done with
  | ok state same => exact .ok state same
  | fault state cause =>
    have noted := List.rel_append state.noted (.cons (.grammatical state.peek cause) .nil)
    exact .ok { state with rest := paired_resume state.rest, noted := noted } .none
  | outOfFuel state => exact .outOfFuel state

end Statements

theorem parallel_declarations {one : Rule (Option Stmt)}
    (h : Parallel lines one one (Option.Rel (MatchingStmt lines))) (closer : Option Kind)
    (fuel : Nat) :
    Parallel lines (declarations closer one fuel) (declarations closer one fuel)
      (MatchingBody lines) := by
  induction fuel with
  | zero => exact Parallel.outOfFuel
  | succ fuel ih =>
    have go : ∀ closed, Parallel lines (declarationsRound closer one fuel closed)
        (declarationsRound closer one fuel closed) (MatchingBody lines) := by
      intro closed
      refine Parallel.atEnd fun _ => Parallel.ite (Parallel.pure .nil) (h.bind fun o o' first => ?_)
      cases first with
      | none => exact ih
      | some same => exact ih.bind fun _ _ others => Parallel.pure (.cons same others)
    cases closer with
    | none =>
      rw [declarations_unclosed]
      exact go false
    | some k =>
      rw [declarations_closed]
      exact Parallel.sees k go

theorem nested_parallel (fuel : Nat) : (nested fuel).Parallel lines := by
  induction fuel with
  | zero => exact ⟨fun _ => Parallel.outOfFuel, fun _ => Parallel.outOfFuel⟩
  | succ fuel ih =>
    refine ⟨parallel_statement ih (fuel + 1), fun inLoop => ?_⟩
    exact (parallel_declarations (parallel_declaration ih (fuel + 1) inLoop) _ (fuel + 1)).bind
      fun _ _ same => Parallel.expecting fun _ _ _ => Parallel.pure same

/-- A program is read in the same way wherever its lines are. -/
theorem parallel_program (fuel : Nat) :
    Parallel lines (program fuel) (program fuel) (MatchingBody lines) :=
  parallel_declarations (parallel_declaration (nested_parallel fuel) fuel false) none fuel

end Lox.Grammar
