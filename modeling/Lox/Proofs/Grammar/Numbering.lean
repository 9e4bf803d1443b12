import Lox.Proofs.Grammar.Cursor
import Lox.Proofs.Grammar.Soundness.Statement
import Lox.Proofs.Tree.Shape

/-!
# The nodes of a parsed tree

`Yields checked r P` says that whenever a rule succeeds, `P` relates the tree to the identities that
were next before and after; if `checked` holds, the tokens are taken to be well-spelled. From it,
the nodes of every tree that is parsed got the identities between the two, each once, and a tree of
well-spelled tokens has the shape of `Stmt.ProperAll` (`yields_program`).
-/

namespace Lox.Grammar

open EStateM (Result)

def Yields (checked : Prop) {α : Type} (r : Rule α) (P : Nat → Nat → α → Prop) : Prop :=
  ∀ s a t, (checked → ∀ u ∈ s.rest, u.Spelled) → r s = .ok a t →
    (checked → ∀ u ∈ t.rest, u.Spelled) ∧ s.nextId ≤ t.nextId ∧ P s.nextId t.nextId a

variable {checked : Prop}

namespace Yields

variable {α β : Type} {P P' : Nat → Nat → α → Prop} {Q : Nat → Nat → β → Prop} {x : Rule α}
  {f : α → Rule β}

theorem mono (h : Yields checked x P) (sub : ∀ low high a, P low high a → P' low high a) :
    Yields checked x P' := by
  intro s a t spelled run
  obtain ⟨left, later, holds⟩ := h s a t spelled run
  exact ⟨left, later, sub _ _ _ holds⟩

theorem pure (a : α) :
    Yields checked (Pure.pure a : Rule α) fun low high b => low = high ∧ b = a := by
  intro s b t spelled run
  change Result.ok a s = Result.ok b t at run
  cases run
  exact ⟨spelled, Nat.le_refl _, rfl, rfl⟩

theorem throw (e : Failure) : Yields checked (MonadExcept.throw e : Rule α) P :=
  fun _ _ _ _ run => nomatch run

theorem fail (cause : SyntaxFault) : Yields checked (Grammar.fail cause : Rule α) P :=
  fun _ _ _ _ run => nomatch run

theorem bind {R : α → Nat → Nat → β → Prop} (first : Yields checked x P)
    (next : ∀ a, Yields checked (f a) (R a)) :
    Yields checked (x >>= f) fun low high b =>
      ∃ mid a, low ≤ mid ∧ mid ≤ high ∧ P low mid a ∧ R a mid high b := by
  intro s b t spelled run
  obtain ⟨a, m, before, after⟩ := bind_ok run
  obtain ⟨left, later, holds⟩ := first s a m spelled before
  obtain ⟨left', later', holds'⟩ := next a m b t left after
  exact ⟨left', Nat.le_trans later later', m.nextId, a, later, later', holds, holds'⟩

theorem map {g : α → β} (h : Yields checked x P)
    (sub : ∀ low high a, P low high a → Q low high (g a)) : Yields checked (g <$> x) Q := by
  intro s b t spelled run
  rw [← bind_pure_comp] at run
  obtain ⟨a, m, before, after⟩ := bind_ok run
  obtain ⟨left, later, holds⟩ := h s a m spelled before
  cases after
  exact ⟨left, later, sub _ _ _ holds⟩

theorem looking {γ : Type} (g : State → γ) {f : γ → Rule β} (h : ∀ c, Yields checked (f c) Q) :
    Yields checked ((do return g (← get)) >>= f) Q :=
  fun s b t spelled run => h (g s) s b t spelled run

theorem ite {c : Prop} [Decidable c] {yes no : Rule β} (h : Yields checked yes Q)
    (k : Yields checked no Q) : Yields checked (if c then yes else no) Q := by
  split
  · exact h
  · exact k

theorem accepting {kinds : List Kind} {f : Option Token → Rule β}
    (yes : ∀ t, t.kind ∈ kinds → (checked → t.Spelled) → Yields checked (f (some t)) Q)
    (no : Yields checked (f none) Q) : Yields checked (acceptAny? kinds >>= f) Q := by
  intro s b t spelled run
  rcases stops_or_starts kinds s.rest with stops | ⟨u, us, read, mem⟩
  · rw [bind_of_ok (acceptAny?_of_stops stops)] at run
    exact no s b t spelled run
  · rw [bind_of_ok ((acceptAny?_cons kinds u s us read).trans (if_pos mem))] at run
    rw [read] at spelled
    have rest : checked → ∀ v ∈ us, v.Spelled := fun c v later =>
      spelled c v (List.mem_cons_of_mem _ later)
    exact yes u mem (fun c => spelled c u List.mem_cons_self) { s with rest := us } b t rest run

theorem expecting {k : Kind} {cause : SyntaxFault} {f : Token → Rule β}
    (h : ∀ t, t.kind = k → (checked → t.Spelled) → Yields checked (f t) Q) :
    Yields checked (expect k cause >>= f) Q := by
  rw [expect, accept?, bind_assoc]
  refine accepting (fun t mem spelled => ?_) ?_
  · simpa only [pure_bind] using h t (by simpa using mem) spelled
  · rw [fail_bind]
    exact fail cause

theorem noting {place : Token} {cause : SyntaxFault} {f : Unit → Rule β}
    (h : Yields checked (f ()) Q) : Yields checked (note place cause >>= f) Q :=
  fun s b t spelled run =>
    h { s with noted := s.noted ++ [.grammatical place cause] } b t spelled run

theorem notingHere {cause : SyntaxFault} {f : Unit → Rule β} (h : Yields checked (f ()) Q) :
    Yields checked (noteHere cause >>= f) Q :=
  fun s b t spelled run =>
    h { s with noted := s.noted ++ [.grammatical s.peek cause] } b t spelled run

theorem numbering {f : NodeId → Rule β} {R : NodeId → Nat → Nat → β → Prop}
    (h : ∀ id, Yields checked (f id) (R id)) :
    Yields checked (freshId >>= f) fun low high b => low + 1 ≤ high ∧ R low (low + 1) high b := by
  intro s b t spelled run
  obtain ⟨left, later, holds⟩ :=
    h s.nextId { s with nextId := s.nextId + 1 } b t spelled run
  exact ⟨left, Nat.le_trans (Nat.le_succ _) later, later, holds⟩

end Yields

/-! ### Expressions -/

/-- A tree whose identities were given out between `low` and `high`, of the right shape if its
tokens were well-spelled. -/
def GoodExpr (checked : Prop) (low high : Nat) (e : Expr) : Prop :=
  Fresh low high e.ids ∧ (checked → e.Proper)

theorem GoodExpr.mono {low high low' high' : Nat} {e : Expr} (h : GoodExpr checked low high e)
    (below : low' ≤ low) (above : high ≤ high') : GoodExpr checked low' high' e :=
  ⟨h.1.mono below above, h.2⟩

theorem goodExpr_literal (l : Literal) (n : Nat) : GoodExpr checked n n (.literal l) :=
  ⟨Fresh.nil, fun _ => trivial⟩

section Nested

variable {nested : Rule Expr} (h : Yields checked nested (GoodExpr checked))

include h

theorem yields_primary : Yields checked (primary nested) (GoodExpr checked) := by
  have after : ∀ t q, primaryAfter nested t = some q → (checked → t.Spelled) →
      Yields checked q (GoodExpr checked) := by
    intro t q found spelled
    unfold primaryAfter at found
    split at found
    · next isSuper =>
      cases found
      refine Yields.expecting fun _ _ _ => Yields.expecting fun method _ _ => ?_
      apply (Yields.numbering fun id => Yields.pure (Expr.super id t method)).mono
      intro low high _ numbered
      obtain ⟨later, -, rfl⟩ := numbered
      exact ⟨Fresh.single.mono (Nat.le_refl _) later, fun c => (spelled c).1 _ isSuper⟩
    · next isThis =>
      cases found
      apply (Yields.numbering fun id => Yields.pure (Expr.this id t)).mono
      intro low high _ numbered
      obtain ⟨later, -, rfl⟩ := numbered
      exact ⟨Fresh.single.mono (Nat.le_refl _) later, fun c => (spelled c).1 _ isThis⟩
    · next isName =>
      cases found
      apply (Yields.numbering fun id => Yields.pure (Expr.variable id t)).mono
      intro low high _ numbered
      obtain ⟨later, -, rfl⟩ := numbered
      exact ⟨Fresh.single.mono (Nat.le_refl _) later, fun c => (spelled c).declarable isName⟩
    · next isParen =>
      cases found
      apply (h.bind fun inner => Yields.expecting fun _ _ _ =>
        Yields.pure (Expr.group inner)).mono
      intro low high _ numbered
      obtain ⟨mid, inner, -, -, good, rfl, rfl⟩ := numbered
      exact good
    · obtain ⟨l, -, rfl⟩ := Option.map_eq_some_iff.1 found
      apply (Yields.pure (Expr.literal l)).mono
      intro low _ _ numbered
      obtain ⟨rfl, rfl⟩ := numbered
      exact goodExpr_literal l low
  intro s e t spelled run
  cases read : s.rest with
  | nil =>
    rw [primary_nil nested s read] at run
    cases run
  | cons u rest =>
    rw [primary_cons nested u s rest read] at run
    rw [read] at spelled
    cases found : primaryAfter nested u with
    | none =>
      rw [found] at run
      cases run
    | some q =>
      rw [found] at run
      exact after u q found (fun c => spelled c u List.mem_cons_self) { s with rest } e t
        (fun c v later => spelled c v (List.mem_cons_of_mem _ later)) run

omit h in
theorem yields_commaSeparated {α : Type} {item : Rule α} {P : Nat → Nat → α → Prop}
    {R : Nat → Nat → List α → Prop} (h : Yields checked item P)
    (one : ∀ {low high a}, P low high a → R low high [a])
    (more : ∀ {low mid high a as}, low ≤ mid → mid ≤ high → P low mid a → R mid high as →
      R low high (a :: as))
    (excess : SyntaxFault) (count fuel : Nat) :
    Yields checked (commaSeparated item excess count fuel) R := by
  induction fuel generalizing count with
  | zero => exact Yields.throw _
  | succ fuel ih =>
    have items : Yields checked (item >>= fun first => accept? (.symbol .comma) >>= fun o =>
        if o.isSome = true then
          (do return first :: (← commaSeparated item excess (count + 1) fuel))
        else pure [first]) R := by
      refine (h.bind fun first => Yields.accepting
        (Q := fun low high as => (low = high ∧ as = [first]) ∨
          ∃ others, R low high others ∧ as = first :: others)
        (fun _ _ _ => ?_) ?_).mono ?_
      · apply ((ih (count + 1)).bind fun others => Yields.pure (first :: others)).mono
        intro low _ _ numbered
        obtain ⟨mid, others, -, -, holds, rfl, rfl⟩ := numbered
        exact .inr ⟨others, holds, rfl⟩
      · exact (Yields.pure [first]).mono fun _ _ _ same => .inl same
      · intro low high _ numbered
        obtain ⟨mid, first, below, above, holds, ⟨rfl, rfl⟩ | ⟨others, rest, rfl⟩⟩ := numbered
        · exact one holds
        · exact more below above holds rest
    exact Yields.ite (Yields.notingHere items) items

omit h in
theorem yields_listed {α : Type} {item : Rule α} {P : Nat → Nat → α → Prop}
    {R : Nat → Nat → List α → Prop} (h : Yields checked item P) (none : ∀ n, R n n [])
    (one : ∀ {low high a}, P low high a → R low high [a])
    (more : ∀ {low mid high a as}, low ≤ mid → mid ≤ high → P low mid a → R mid high as →
      R low high (a :: as))
    (excess : SyntaxFault) (fuel : Nat) : Yields checked (listed item excess fuel) R := by
  refine Yields.looking (Reader.check (.symbol .rightParen))
    fun closed => Yields.ite ?_ (yields_commaSeparated h one more excess 0 fuel)
  apply (Yields.pure []).mono
  intro n _ _ numbered
  obtain ⟨rfl, rfl⟩ := numbered
  exact none n

def GoodExprs (checked : Prop) (low high : Nat) (es : List Expr) : Prop :=
  Fresh low high (Expr.idsAll es) ∧ (checked → Expr.ProperAll es)

theorem yields_arguments (excess : SyntaxFault) (fuel : Nat) :
    Yields checked (listed nested excess fuel) (GoodExprs checked) := by
  refine yields_listed h (fun _ => ⟨Fresh.nil, fun _ => trivial⟩) ?_ ?_ excess fuel
  · intro low high e good
    exact ⟨by simpa [Expr.idsAll] using good.1, fun c => ⟨good.2 c, trivial⟩⟩
  · intro low mid high e es below above good others
    exact ⟨good.1.append others.1 below above, fun c => ⟨good.2 c, others.2 c⟩⟩

theorem yields_suffixes (fuel : Nat) (e : Expr) :
    Yields checked (suffixes nested fuel e) fun low high e' =>
      ∀ start, start ≤ low → GoodExpr checked start low e → GoodExpr checked start high e' := by
  induction fuel generalizing e with
  | zero => exact Yields.throw _
  | succ fuel ih =>
    refine Yields.accepting (fun _ _ _ => ?_) (Yields.accepting (fun _ _ _ => ?_) ?_)
    · apply ((yields_arguments h _ _).bind (R := fun arguments low high e' => ∀ start, start ≤ low →
        Fresh start low (e.ids ++ Expr.idsAll arguments) ∧
          (checked → e.Proper ∧ Expr.ProperAll arguments) → GoodExpr checked start high e')
        fun arguments => Yields.expecting fun paren _ _ => ih (.call e paren arguments)).mono
      intro low high e' numbered start first left
      obtain ⟨mid, arguments, below, above, good, rest⟩ := numbered
      exact rest start (by omega)
        ⟨left.1.append good.1 first below, fun c => ⟨left.2 c, good.2 c⟩⟩
    · exact Yields.expecting fun name _ _ => ih (.get e name)
    · apply (Yields.pure e).mono
      intro low _ _ numbered start _ left
      obtain ⟨rfl, rfl⟩ := numbered
      exact left

theorem yields_unary (fuel : Nat) : Yields checked (unary nested fuel) (GoodExpr checked) := by
  induction fuel with
  | zero => exact Yields.throw _
  | succ fuel ih =>
    refine Yields.accepting (fun operator _ _ => ?_) ?_
    · apply (ih.bind fun right => Yields.pure (Expr.unary operator right)).mono
      intro low _ _ numbered
      obtain ⟨mid, right, -, -, good, rfl, rfl⟩ := numbered
      exact good
    · apply ((yields_primary h).bind fun e => yields_suffixes h (fuel + 1) e).mono
      intro low high e' numbered
      obtain ⟨mid, e, below, -, good, rest⟩ := numbered
      exact rest low below good

omit h in
theorem yields_chain {level : Level} {operand : Rule Expr} (mem : level ∈ levels)
    (h : Yields checked operand (GoodExpr checked)) (fuel : Nat) (left : Expr) :
    Yields checked (chain level operand fuel left) fun low high e' =>
      ∀ start, start ≤ low → GoodExpr checked start low left → GoodExpr checked start high e' := by
  induction fuel generalizing left with
  | zero => exact Yields.throw _
  | succ fuel ih =>
    refine Yields.accepting (fun operator _ _ => ?_) ?_
    · apply (h.bind fun right => ih (level.node left operator right)).mono
      intro low high e' numbered start first before
      obtain ⟨mid, right, below, above, good, rest⟩ := numbered
      apply rest start (by omega)
      have joined : GoodExpr checked start mid (.binary left operator right) :=
        ⟨before.1.append good.1 first below, fun c => ⟨before.2 c, good.2 c⟩⟩
      have node : level.node = .binary ∨ level.node = .logical := by
        simp only [levels, List.mem_cons, List.not_mem_nil, or_false] at mem
        rcases mem with rfl | rfl | rfl | rfl | rfl | rfl <;> simp
      rcases node with node | node <;> rw [node] <;> exact joined
    · apply (Yields.pure left).mono
      intro low _ _ numbered start _ before
      obtain ⟨rfl, rfl⟩ := numbered
      exact before

omit h in
theorem yields_binary {operand : Rule Expr} (h : Yields checked operand (GoodExpr checked))
    (fuel : Nat) (ls : List Level) (sub : ∀ l ∈ ls, l ∈ levels) :
    Yields checked (binary operand fuel ls) (GoodExpr checked) := by
  induction ls with
  | nil => exact h
  | cons level tighter ih =>
    have inner := ih fun l mem => sub l (List.mem_cons_of_mem _ mem)
    apply (inner.bind fun left =>
      yields_chain (sub level List.mem_cons_self) inner fuel left).mono
    intro low high e' numbered
    obtain ⟨mid, left, below, -, good, rest⟩ := numbered
    exact rest low below good

theorem yields_assignment (fuel : Nat) :
    Yields checked (assignment nested fuel) (GoodExpr checked) := by
  refine ((yields_binary (yields_unary h fuel) fuel levels fun _ mem => mem).bind fun target =>
    Yields.accepting (Q := fun low high e => ∀ start, start ≤ low →
      GoodExpr checked start low target → GoodExpr checked start high e)
      (fun equals _ _ => ?_) ?_).mono ?_
  · refine (h.bind (R := fun v low high e => ∀ start before, start ≤ before → before ≤ low →
      GoodExpr checked start before target → GoodExpr checked before low v →
        GoodExpr checked start high e)
      fun value => ?_).mono ?_
    · split
      · next name =>
        apply (Yields.numbering fun id => Yields.pure (Expr.assign id name value)).mono
        intro low _ _ numbered start before first second target good
        obtain ⟨later, rfl, rfl⟩ := numbered
        have fresh : Fresh before (low + 1) (value.ids ++ [low]) :=
          good.1.append Fresh.single second (Nat.le_succ low)
        exact ⟨fresh.mono first (Nat.le_refl _), fun c => ⟨target.2 c, good.2 c⟩⟩
      · next object name =>
        apply (Yields.pure (Expr.set object name value)).mono
        intro low _ _ numbered start before first second target good
        obtain ⟨rfl, rfl⟩ := numbered
        exact ⟨(target.1.append good.1 first second).perm List.perm_append_comm,
          fun c => ⟨target.2 c, good.2 c⟩⟩
      · refine Yields.noting ((Yields.pure target).mono ?_)
        intro low _ _ numbered start before _ second good _
        obtain ⟨rfl, rfl⟩ := numbered
        exact good.mono (Nat.le_refl _) second
    · intro low high e numbered start first before
      obtain ⟨mid, value, below, -, good, rest⟩ := numbered
      exact rest start low first below before good
  · apply (Yields.pure target).mono
    intro low _ _ numbered start _ good
    obtain ⟨rfl, rfl⟩ := numbered
    exact good
  · intro low high e numbered
    obtain ⟨mid, target, below, -, good, rest⟩ := numbered
    exact rest low below good

end Nested

theorem yields_expression (fuel : Nat) : Yields checked (expression fuel) (GoodExpr checked) := by
  induction fuel with
  | zero => exact Yields.throw _
  | succ fuel ih => exact yields_assignment ih (fuel + 1)

/-! ### Statements -/

def GoodExpr? (checked : Prop) (low high : Nat) (o : Option Expr) : Prop :=
  Fresh low high (Expr.idsOption o) ∧ (checked → Expr.ProperOption o)

/-- A statement whose identities were given out between `low` and `high`, of the right shape if its
tokens were well-spelled. -/
def GoodDeclaration (checked : Prop) (low high : Nat) (s : Stmt) : Prop :=
  Fresh low high s.ids ∧ (checked → s.Proper)

def GoodStmt (checked : Prop) (low high : Nat) (s : Stmt) : Prop :=
  Fresh low high s.ids ∧ (checked → s.Proper) ∧ s.declares = false

def GoodBody (checked : Prop) (low high : Nat) (ss : List Stmt) : Prop :=
  Fresh low high (Stmt.idsAll ss) ∧ (checked → Stmt.ProperAll ss)

def GoodRoutine (checked : Prop) (low high : Nat) (d : FunctionDecl) : Prop :=
  Fresh low high d.ids ∧ (checked → d.Proper ∧ d.name.Declarable)

def GoodMethods (checked : Prop) (low high : Nat) (ds : List FunctionDecl) : Prop :=
  Fresh low high (FunctionDecl.idsAll ds) ∧ (checked → FunctionDecl.ProperAll ds)

structure Nested.Yields (n : Nested State) (checked : Prop) : Prop where
  statement : ∀ inLoop, Grammar.Yields checked (n.statement inLoop) (GoodStmt checked)
  block : ∀ inLoop, Grammar.Yields checked (n.block inLoop) (GoodBody checked)

theorem yields_expressionStatement (fuel : Nat) :
    Yields checked (expressionStatement fuel) (GoodStmt checked) := by
  apply ((yields_expression fuel).bind fun e => Yields.expecting fun _ _ _ =>
    Yields.pure (Stmt.expression e)).mono
  intro low _ _ numbered
  obtain ⟨mid, e, -, -, good, rfl, rfl⟩ := numbered
  exact ⟨good.1, good.2, rfl⟩

theorem yields_someExpression (fuel : Nat) :
    Yields checked (some <$> expression fuel) (GoodExpr? checked) :=
  (yields_expression fuel).map fun _ _ _ good => good

theorem yields_none : Yields checked (pure none : Rule (Option Expr)) (GoodExpr? checked) := by
  apply (Yields.pure none).mono
  intro low _ _ numbered
  obtain ⟨rfl, rfl⟩ := numbered
  exact ⟨Fresh.nil, fun _ => trivial⟩

theorem yields_optionalExpression (fuel : Nat) (follower : Kind) :
    Yields checked (optionalExpression fuel follower) (GoodExpr? checked) :=
  Yields.looking (Reader.check follower) fun _ =>
    Yields.ite yields_none (yields_someExpression fuel)

theorem yields_varDeclaration (fuel : Nat) :
    Yields checked (varDeclaration fuel) (GoodDeclaration checked) := by
  have finish : ∀ name : Token, ∀ initializer, Yields checked (do
      let _ ← expect (.symbol .semicolon) .expectVariableEnd
      return Stmt.var name initializer) fun low high s => low = high ∧ s = .var name initializer :=
    fun name initializer => Yields.expecting fun _ _ _ => Yields.pure _
  apply Yields.expecting
  intro name isName spelled
  have declarable : checked → name.Declarable := fun c => (spelled c).declarable isName
  refine Yields.accepting (fun _ _ _ => ?_) ?_
  · apply ((yields_someExpression fuel).bind (finish name)).mono
    intro low _ _ numbered
    obtain ⟨mid, initializer, -, -, good, rfl, rfl⟩ := numbered
    exact ⟨good.1, fun c => ⟨declarable c, good.2 c⟩⟩
  · apply (yields_none.bind (finish name)).mono
    intro low _ _ numbered
    obtain ⟨mid, initializer, -, -, good, rfl, rfl⟩ := numbered
    exact ⟨good.1, fun c => ⟨declarable c, good.2 c⟩⟩

def GoodOption (checked : Prop) (low high : Nat) (o : Option Stmt) : Prop :=
  Fresh low high (o.elim [] Stmt.ids) ∧ (checked → o.elim True Stmt.Proper)

theorem yields_forInitializer (fuel : Nat) :
    Yields checked (forInitializer fuel) (GoodOption checked) := by
  refine Yields.accepting (fun _ _ _ => ?_) (Yields.accepting (fun _ _ _ => ?_) ?_)
  · apply (Yields.pure none).mono
    intro low _ _ numbered
    obtain ⟨rfl, rfl⟩ := numbered
    exact ⟨Fresh.nil, fun _ => trivial⟩
  · exact (yields_varDeclaration fuel).map fun _ _ _ good => good
  · exact (yields_expressionStatement fuel).map fun _ _ _ good => ⟨good.1, good.2.1⟩

theorem forLoop_ids (initializer : Option Stmt) (condition increment : Option Expr) (body : Stmt) :
    (initializer.elim [] Stmt.ids ++ (Expr.idsOption condition ++
      (Expr.idsOption increment ++ body.ids))).Perm
      (forLoop initializer condition increment body).ids := by
  cases initializer <;> cases condition <;> cases increment <;>
    simp [forLoop, Stmt.ids, Stmt.idsAll, Expr.ids, Expr.idsOption, List.perm_append_left_iff,
      List.perm_append_comm]

theorem forLoop_proper {initializer : Option Stmt} {condition increment : Option Expr} {body : Stmt}
    (first : initializer.elim True Stmt.Proper) (second : Expr.ProperOption condition)
    (third : Expr.ProperOption increment) (last : body.Proper) (plain : body.declares = false) :
    (forLoop initializer condition increment body).Proper := by
  cases initializer <;> cases condition <;> cases increment <;>
    simp_all [forLoop, Stmt.Proper, Stmt.ProperAll, Expr.Proper, Expr.ProperOption, Stmt.declares]

theorem forLoop_declares (initializer : Option Stmt) (condition increment : Option Expr)
    (body : Stmt) : (forLoop initializer condition increment body).declares = false := by
  cases initializer <;> rfl

section Statements

variable {n : Nested State} (h : n.Yields checked) (fuel : Nat)

include h

theorem yields_forStatement : Yields checked (forStatement n fuel) (GoodStmt checked) := by
  refine Yields.expecting fun _ _ _ => ((yields_forInitializer fuel).bind fun initializer =>
    (yields_optionalExpression fuel _).bind fun condition => Yields.expecting fun _ _ _ =>
    (yields_optionalExpression fuel _).bind fun increment => Yields.expecting fun _ _ _ =>
    (h.statement true).bind fun body =>
    Yields.pure (forLoop initializer condition increment body)).mono ?_
  intro low _ _ numbered
  obtain ⟨m, initializer, below, above, first, m', condition, below', above', second, m'',
    increment, below'', above'', third, m''', body, _, _, last, rfl, rfl⟩ := numbered
  have fresh := first.1.append (second.1.append (third.1.append last.1 below'' above'') below'
    above') below above
  exact ⟨fresh.perm (forLoop_ids initializer condition increment body),
    fun c => forLoop_proper (first.2 c) (second.2 c) (third.2 c) (last.2.1 c) last.2.2,
    forLoop_declares initializer condition increment body⟩

theorem yields_whileStatement : Yields checked (whileStatement n fuel) (GoodStmt checked) := by
  refine Yields.expecting fun _ _ _ => ((yields_expression fuel).bind fun condition =>
    Yields.expecting fun _ _ _ => (h.statement true).bind fun body =>
    Yields.pure (Stmt.while condition body)).mono ?_
  intro low _ _ numbered
  obtain ⟨mid, condition, below, above, first, mid', body, -, -, last, rfl, rfl⟩ := numbered
  exact ⟨first.1.append last.1 below above, fun c => ⟨first.2 c, last.2.1 c, last.2.2⟩, rfl⟩

theorem yields_ifStatement (inLoop : Bool) :
    Yields checked (ifStatement n fuel inLoop) (GoodStmt checked) := by
  refine Yields.expecting fun _ _ _ => ((yields_expression fuel).bind fun condition =>
    Yields.expecting fun _ _ _ => (h.statement inLoop).bind fun thenBranch => Yields.accepting
      (Q := fun low high s => ∃ o, s = Stmt.ite condition thenBranch o ∧
        ∀ s' ∈ o, GoodStmt checked low high s') (fun _ _ _ => ?_) ?_).mono ?_
  · have elseBranch : Yields checked (some <$> n.statement inLoop) fun low high o => ∀ s' ∈ o,
        GoodStmt checked low high s' := by
      apply (h.statement inLoop).map
      rintro low high s good _ ⟨⟩
      exact good
    apply (elseBranch.bind fun o => Yields.pure (Stmt.ite condition thenBranch o)).mono
    intro low _ _ numbered
    obtain ⟨mid, o, -, -, good, rfl, rfl⟩ := numbered
    exact ⟨o, rfl, good⟩
  · apply ((Yields.pure none).bind fun o => Yields.pure (Stmt.ite condition thenBranch o)).mono
    intro low _ _ numbered
    obtain ⟨mid, o, -, -, ⟨rfl, rfl⟩, rfl, rfl⟩ := numbered
    exact ⟨none, rfl, nofun⟩
  · intro low high _ numbered
    obtain ⟨mid, condition, below, above, first, mid', thenBranch, below', above', second, o, rfl,
      third⟩ := numbered
    cases o with
    | none =>
      have fresh := first.1.append (second.1.mono (Nat.le_refl _) above') below above
      exact ⟨fresh, fun c => ⟨first.2 c, second.2.1 c, second.2.2⟩, rfl⟩
    | some s =>
      have last := third s rfl
      have fresh := first.1.append (second.1.append last.1 below' above') below above
      exact ⟨fresh, fun c => ⟨first.2 c, ⟨second.2.1 c, second.2.2⟩, last.2.1 c, last.2.2⟩, rfl⟩

omit h in
theorem yields_breakStatement (keyword : Token) (inLoop : Bool) :
    Yields checked (breakStatement keyword inLoop) (GoodStmt checked) := by
  have ending : Yields checked (expect (.symbol .semicolon) .expectBreakEnd >>= fun _ =>
      pure (Stmt.break keyword)) (GoodStmt checked) := by
    refine Yields.expecting fun _ _ _ => (Yields.pure _).mono ?_
    intro low _ _ numbered
    obtain ⟨rfl, rfl⟩ := numbered
    exact ⟨Fresh.nil, fun _ => trivial, rfl⟩
  exact Yields.ite (Yields.noting ending) ending

omit h in
theorem yields_returnStatement (keyword : Token) :
    Yields checked (returnStatement keyword fuel) (GoodStmt checked) := by
  apply ((yields_optionalExpression fuel _).bind fun value => Yields.expecting fun _ _ _ =>
    Yields.pure (Stmt.return keyword value)).mono
  intro low _ _ numbered
  obtain ⟨mid, value, -, -, good, rfl, rfl⟩ := numbered
  exact ⟨good.1, good.2, rfl⟩

omit h in
theorem yields_printStatement : Yields checked (printStatement fuel) (GoodStmt checked) := by
  apply ((yields_expression fuel).bind fun e => Yields.expecting fun _ _ _ =>
    Yields.pure (Stmt.print e)).mono
  intro low _ _ numbered
  obtain ⟨mid, e, -, -, good, rfl, rfl⟩ := numbered
  exact ⟨good.1, good.2, rfl⟩

theorem yields_statement (inLoop : Bool) :
    Yields checked (statement n fuel inLoop) (GoodStmt checked) := by
  refine Yields.accepting (fun t mem _ => ?_) (yields_expressionStatement fuel)
  dsimp only
  split
  · exact yields_forStatement h fuel
  · exact yields_ifStatement h fuel inLoop
  · exact yields_whileStatement h fuel
  · exact yields_breakStatement t inLoop
  · exact yields_returnStatement fuel t
  · exact yields_printStatement fuel
  · exact (h.block inLoop).map fun _ _ _ good => ⟨good.1, good.2, rfl⟩

theorem yields_routine (r : Routine) : Yields checked (routine r n fuel) (GoodRoutine checked) := by
  have parameter : Yields checked (expect .identifier .expectParameterName) fun low high p =>
      low ≤ high ∧ (checked → p.Declarable) := by
    rw [← bind_pure (expect _ _)]
    refine Yields.expecting fun p isName spelled => (Yields.pure p).mono ?_
    intro low _ _ numbered
    obtain ⟨rfl, rfl⟩ := numbered
    exact ⟨Nat.le_refl _, fun c => (spelled c).declarable isName⟩
  have parameters : Yields checked
      (listed (expect .identifier .expectParameterName) .tooManyParameters fuel)
      fun low high ps => low ≤ high ∧ (checked → ∀ p ∈ ps, p.Declarable) := by
    refine yields_listed parameter (fun n => ⟨Nat.le_refl n, nofun⟩) ?_ ?_ _ fuel
    · intro low high p good
      simpa using good
    · intro low mid high p ps below above good others
      exact ⟨Nat.le_trans below above, fun c => by simpa using ⟨good.2 c, others.2 c⟩⟩
  refine Yields.expecting fun name isName spelled => Yields.expecting fun _ _ _ =>
    (parameters.bind fun params => Yields.expecting fun _ _ _ => Yields.expecting fun _ _ _ =>
    (h.block false).bind fun body => Yields.pure (FunctionDecl.mk name params body)).mono ?_
  intro low _ _ numbered
  obtain ⟨mid, params, below, -, ⟨-, declarable⟩, mid', body, -, -, good, rfl, rfl⟩ := numbered
  exact ⟨good.1.mono below (Nat.le_refl _),
    fun c => ⟨⟨declarable c, good.2 c⟩, (spelled c).declarable isName⟩⟩

theorem yields_methods : Yields checked (methods n fuel) (GoodMethods checked) := by
  induction fuel with
  | zero => exact Yields.throw _
  | succ fuel ih =>
    refine Yields.looking (Reader.check (.symbol .rightBrace))
      fun closed => Yields.looking (fun s => s.rest.isEmpty) fun ended => Yields.ite ?_ ?_
    · apply (Yields.pure []).mono
      intro low _ _ numbered
      obtain ⟨rfl, rfl⟩ := numbered
      exact ⟨Fresh.nil, fun _ => trivial⟩
    · apply ((yields_routine h (fuel + 1) .method).bind fun first => ih.bind fun others =>
        Yields.pure (first :: others)).mono
      intro low _ _ numbered
      obtain ⟨mid, first, below, above, good, mid', others, _, -, rest, rfl, rfl⟩ := numbered
      exact ⟨good.1.append rest.1 below above, fun c => ⟨(good.2 c).1, rest.2 c⟩⟩

omit h in
theorem yields_superclass? : Yields checked superclass? fun low high o =>
    Fresh low high (Expr.idsOption o) ∧ (checked → IsSuperclass o) := by
  refine Yields.accepting (fun _ _ _ => Yields.expecting fun name isName spelled => ?_) ?_
  · apply (Yields.numbering fun id => Yields.pure (some (Expr.variable id name))).mono
    intro low high _ numbered
    obtain ⟨later, -, rfl⟩ := numbered
    exact ⟨Fresh.single.mono (Nat.le_refl _) later,
      fun c => ⟨low, name, rfl, (spelled c).declarable isName⟩⟩
  · apply (Yields.pure none).mono
    intro low _ _ numbered
    obtain ⟨rfl, rfl⟩ := numbered
    exact ⟨Fresh.nil, fun _ => trivial⟩

theorem yields_classDeclaration :
    Yields checked (classDeclaration n fuel) (GoodDeclaration checked) := by
  refine Yields.expecting fun name isName spelled => (yields_superclass?.bind fun superclass =>
    Yields.expecting fun _ _ _ => (yields_methods h fuel).bind fun body =>
    Yields.expecting fun _ _ _ => Yields.pure (Stmt.class name superclass body)).mono ?_
  intro low _ _ numbered
  obtain ⟨mid, superclass, below, above, head, mid', body, -, -, good, rfl, rfl⟩ := numbered
  exact ⟨head.1.append good.1 below above,
    fun c => ⟨(spelled c).declarable isName, head.2 c, good.2 c⟩⟩

theorem yields_declarationOrFail (inLoop : Bool) :
    Yields checked (declarationOrFail n fuel inLoop) (GoodDeclaration checked) := by
  refine Yields.accepting (fun t _ _ => ?_) ?_
  · dsimp only
    split
    · exact yields_classDeclaration h fuel
    · exact (yields_routine h fuel .function).map fun _ _ _ good =>
        ⟨good.1, fun c => (good.2 c).symm⟩
    · exact yields_varDeclaration fuel
  · exact (yields_statement h fuel inLoop).mono fun _ _ _ good => ⟨good.1, good.2.1⟩

end Statements

theorem yields_declaration {n : Nested State} (sound : n.Sound) (h : n.Yields checked) (fuel : Nat)
    (inLoop : Bool) : Yields checked (declaration n fuel inLoop) (GoodOption checked) := by
  have inner : Yields checked (some <$> declarationOrFail n fuel inLoop)
      (GoodOption checked) :=
    (yields_declarationOrFail h fuel inLoop).map fun _ _ _ good => good
  have later := (reads_declarationOrFail sound fuel inLoop).map (f := some) |>.later
  intro s o t spelled run
  change EStateM.tryCatch _ _ s = _ at run
  unfold EStateM.tryCatch at run
  cases tried : (some <$> declarationOrFail n fuel inLoop) s with
  | ok o' t' =>
    rw [tried] at run
    cases run
    exact inner s o t spelled tried
  | error e t' =>
    have after := later s
    rw [tried] at run after
    cases e with
    | fault d =>
      cases run
      exact ⟨fun c u mem => spelled c u (after.rest.subset ((resume_suffix _).subset mem)),
        after.nextId, Fresh.nil, fun _ => trivial⟩
    | outOfFuel => cases run

theorem yields_declarations {one : Rule (Option Stmt)}
    (h : Yields checked one (GoodOption checked)) (closer : Option Kind) (fuel : Nat) :
    Yields checked (declarations closer one fuel) (GoodBody checked) := by
  induction fuel with
  | zero => exact Yields.throw _
  | succ fuel ih =>
    have go : ∀ closed,
        Yields checked (declarationsRound closer one fuel closed) (GoodBody checked) := by
      intro closed
      refine Yields.looking (fun s => s.rest.isEmpty) fun ended => Yields.ite ?_ ?_
      · apply (Yields.pure []).mono
        intro low _ _ numbered
        obtain ⟨rfl, rfl⟩ := numbered
        exact ⟨Fresh.nil, fun _ => trivial⟩
      · refine (h.bind (R := fun o low high ss => ∃ others, GoodBody checked low high others ∧
          ss = o.elim others fun s => s :: others) fun o => ?_).mono ?_
        · cases o with
          | none => exact ih.mono fun _ _ others good => ⟨others, good, rfl⟩
          | some s =>
            apply (ih.bind fun others => Yields.pure (s :: others)).mono
            intro low _ _ numbered
            obtain ⟨mid, others, -, -, good, rfl, rfl⟩ := numbered
            exact ⟨others, good, rfl⟩
        · intro low high _ numbered
          obtain ⟨mid, o, below, above, first, others, rest, rfl⟩ := numbered
          cases o with
          | none => exact ⟨rest.1.mono below (Nat.le_refl _), rest.2⟩
          | some s =>
            exact ⟨first.1.append rest.1 below above, fun c => ⟨first.2 c, rest.2 c⟩⟩
    cases closer with
    | none =>
      rw [declarations_unclosed]
      exact go false
    | some k =>
      rw [declarations_closed]
      exact Yields.looking (Reader.check k) go

theorem nested_yields (fuel : Nat) : (nested fuel).Yields checked := by
  induction fuel with
  | zero => exact ⟨fun _ => Yields.throw _, fun _ => Yields.throw _⟩
  | succ fuel ih =>
    refine ⟨yields_statement ih (fuel + 1), fun inLoop => ?_⟩
    have body := yields_declarations (yields_declaration (nested_sound fuel) ih (fuel + 1) inLoop)
      (some (.symbol .rightBrace)) (fuel + 1)
    apply (body.bind fun ss => Yields.expecting fun _ _ _ => Yields.pure ss).mono
    intro low _ _ numbered
    obtain ⟨mid, ss, -, -, good, rfl, rfl⟩ := numbered
    exact good

/-- The nodes of a program were numbered while it was read. -/
theorem yields_program (fuel : Nat) : Yields checked (program fuel) (GoodBody checked) :=
  yields_declarations (yields_declaration (nested_sound fuel) (nested_yields fuel) fuel false) none
    fuel

/-- Identities are given out in order, whether or not the tokens are a program. -/
theorem parse_nextId_le (tokens : List Token) (nextId : NodeId) :
    nextId ≤ (parse tokens nextId).nextId := by
  have later := (reads_program (tokens.length + 1)).later (State.start tokens nextId)
  rw [parse_eq]
  cases run : program (tokens.length + 1) (State.start tokens nextId) with
  | ok tree s =>
    rw [run] at later
    exact later.nextId
  | error e s =>
    rw [run] at later
    cases e <;> exact later.nextId

/-- The identities of a parsed program are new; it has the right shape if its tokens are
well-spelled. -/
theorem parse_good {tokens : List Token} {nextId : NodeId} {tree : List Stmt}
    (parsed : (parse tokens nextId).result = .ok tree) :
    GoodBody (∀ t ∈ tokens, t.Spelled) nextId (parse tokens nextId).nextId tree := by
  have start : (∀ t ∈ tokens, t.Spelled) → ∀ t ∈ (State.start tokens nextId).rest, t.Spelled :=
    fun spelled t mem => spelled t ((List.takeWhile_prefix _).subset mem)
  rw [parse_eq] at parsed ⊢
  cases run : program (tokens.length + 1) (State.start tokens nextId) with
  | ok tree' s =>
    obtain ⟨-, -, good⟩ := yields_program _ _ _ _ start run
    rw [run] at parsed
    rw [Parsed.ofResult_ok] at parsed
    dsimp only at parsed
    split at parsed
    · cases parsed
      exact good
    · cases parsed
  | error e s =>
    rw [run] at parsed
    cases e <;> cases parsed

end Lox.Grammar
