import Lox.Proofs.Grammar.Derivation
import Lox.Proofs.Grammar.Reading

/-!
# Expressions that are read are derived

Each rule for expressions reads what the nonterminal of its name derives (`reads_expression`).
-/

namespace Lox.Grammar

theorem reads_commaSeparated {α : Type} {item : Rule α} {D : List Token → α → Prop}
    (h : Reads item (Whole D)) (excess : SyntaxFault) (fuel count : Nat) :
    Reads (commaSeparated item excess count fuel) fun ts _ as =>
      Ebnf.Items D ts as ∧ count + as.length ≤ mostArguments := by
  induction fuel generalizing count with
  | zero => exact Reads.throw _
  | succ fuel ih =>
    have tail : ∀ first, Reads (accept? (.symbol .comma) >>= fun o => if o.isSome = true then
        (do return first :: (← commaSeparated item excess (count + 1) fuel)) else pure [first])
        _ := fun first =>
      Reads.accepting
        (D := fun _ ts _ as => ∃ bs, as = first :: bs ∧ Ebnf.Items D ts bs ∧
          count + 1 + bs.length ≤ mostArguments)
        (fun comma _ => ((ih (count + 1)).bind fun bs => Reads.pure (first :: bs)).mono (by
          intro _ _ _ derivation
          obtain ⟨_, bs, _, rfl, ⟨items, bound⟩, rfl, rfl⟩ := derivation
          exact ⟨bs, rfl, by simpa using items, bound⟩))
        (Reads.pure [first])
    apply Reads.unlessNoted (k := fun _ => item >>= _) (fun _ => reads_noteHere excess)
      (h.bind tail)
    intro room _ _ _ derivation
    obtain ⟨us, first, _, rfl, derived, others⟩ := derivation
    rcases others with ⟨comma, vs, rfl, mem, bs, rfl, items, bound⟩ | ⟨-, rfl, rfl⟩
    · have isComma : comma.kind = .symbol .comma := by simpa using mem
      exact ⟨.more derived isComma items, by simp only [List.length_cons]; omega⟩
    · have alone : Ebnf.Items D us [first] := .one derived
      refine ⟨by simpa using alone, ?_⟩
      simp only [List.length_singleton]
      omega

theorem reads_listed {α : Type} {item : Rule α} {D : List Token → α → Prop} (h : Reads item (Whole D))
    (excess : SyntaxFault) (fuel : Nat) : Reads (listed item excess fuel) (Whole (Ebnf.Listing D)) := by
  refine Reads.seeing _ fun closed => Reads.ite (fun _ => ?_) fun _ => ?_
  · apply (Reads.pure []).mono
    intro _ _ _ derivation
    obtain ⟨rfl, rfl⟩ := derivation
    exact .none
  · apply (reads_commaSeparated h excess fuel 0).mono
    intro _ _ _ derivation
    obtain ⟨items, bound⟩ := derivation
    exact .some items (by simpa [mostArguments] using bound)

/-! ### Primaries -/

/-- What a primary reads after its first token, if it can start with that one. -/
def primaryAfter {σ : Type} [Reader σ] (nested : RuleOf σ Expr) (t : Token) :
    Option (RuleOf σ Expr) :=
  match t.kind with
  | .keyword .super => some do
    let _ ← expect (.symbol .dot) .expectSuperDot
    let method ← expect .identifier .expectSuperMethod
    return .super (← freshId) t method
  | .keyword .this => some do return .this (← freshId) t
  | .identifier => some do return .variable (← freshId) t
  | .symbol .leftParen => some do
    let inner ← nested
    let _ ← expect (.symbol .rightParen) .expectGroupEnd
    return .group inner
  | k => (Ebnf.literalOf? k).map fun l => return .literal l

theorem primary_run {σ : Type} [Reader σ] (nested : RuleOf σ Expr) (s : σ) :
    primary nested s =
      if Reader.isAtEnd s then fail .expectExpression s
      else (primaryAfter nested (Reader.peek s)).elim (fail .expectExpression s) fun q =>
        q (Reader.advance s) := by
  unfold primary primaryAfter
  rw [get_bind]
  split
  · rfl
  · dsimp only
    cases (Reader.peek s).kind with
    | symbol k => cases k <;> rfl
    | keyword k => cases k <;> rfl
    | identifier => rfl
    | string text => rfl
    | number value => rfl
    | eof => rfl

theorem primary_nil (nested : Rule Expr) (s : State) (h : s.rest = []) :
    primary nested s = fail .expectExpression s := by
  have ended : Reader.isAtEnd s = true := by
    show s.rest.isEmpty = true
    rw [h]
    rfl
  rw [primary_run, if_pos ended]

theorem primary_cons (nested : Rule Expr) (t : Token) (s : State) (rest : List Token)
    (h : s.rest = t :: rest) :
    primary nested s =
      (primaryAfter nested t).elim (fail .expectExpression s) fun q => q { s with rest } := by
  obtain ⟨_, stop, noted, nextId⟩ := s
  obtain rfl := h
  exact primary_run nested _

/-- A rule that decides by the next token and takes it. -/
theorem reads_first {α : Type} {r : Rule α} {after : Token → Option (Rule α)} {cause : SyntaxFault}
    {E : Token → List Token → List Token → α → Prop}
    (ended : ∀ s, s.rest = [] → r s = fail cause s)
    (starts : ∀ t s rest, s.rest = t :: rest →
      r s = (after t).elim (fail cause s) fun q => q { s with rest })
    (h : ∀ t q, after t = some q → Reads q (E t)) :
    Reads r fun ts rest a => ∃ t us, ts = t :: us ∧ E t us rest a where
  later s := by
    cases read : s.rest with
    | nil => rw [ended s read]; exact (reads_fail (D := fun _ _ _ => False) cause).later s
    | cons t rest =>
      rw [starts t s rest read]
      cases found : after t with
      | none => exact (reads_fail (D := fun _ _ _ => False) cause).later s
      | some q =>
        have taken : Later s { s with rest } :=
          ⟨by rw [read]; exact List.suffix_cons _ _, rfl, List.prefix_refl _, Nat.le_refl _⟩
        exact taken.trans ((h t q found).later _)
  derives {s a u} run same := by
    cases read : s.rest with
    | nil =>
      rw [ended s read] at run
      have := (reads_fail (D := fun _ _ _ => False) cause).derives run same
      simp at this
    | cons t rest =>
      rw [starts t s rest read] at run
      cases found : after t with
      | none =>
        rw [found] at run
        have := (reads_fail (D := fun _ _ _ => False) cause).derives run same
        simp at this
      | some q =>
        rw [found] at run
        obtain ⟨us, split, derived⟩ := (h t q found).derives run same
        exact ⟨t :: us, congrArg (t :: ·) split, t, us, rfl, derived⟩

theorem reads_primary {nested : Rule Expr} {D : List Token → Expr → Prop} (h : Reads nested (Whole D)) :
    Reads (primary nested) (Whole (Ebnf.Primary D)) := by
  refine (reads_first (E := fun t us _ e => Ebnf.Primary D (t :: us) e)
    (primary_nil nested) (primary_cons nested) fun t q found => ?_).mono ?_
  · unfold primaryAfter at found
    split at found
    · next isSuper =>
      cases found
      apply (Reads.expecting fun dot isDot => Reads.expecting fun method isName =>
        Reads.numbering fun id => Reads.pure _).mono
      intro _ _ _ derivation
      obtain ⟨dot, _, rfl, isDot, method, _, rfl, isName, id, rfl, rfl⟩ := derivation
      exact .super isSuper isDot isName
    · next isThis =>
      cases found
      apply (Reads.numbering fun id => Reads.pure (Expr.this id t)).mono
      intro _ _ _ derivation
      obtain ⟨id, rfl, rfl⟩ := derivation
      exact .this isThis
    · next isName =>
      cases found
      apply (Reads.numbering fun id => Reads.pure (Expr.variable id t)).mono
      intro _ _ _ derivation
      obtain ⟨id, rfl, rfl⟩ := derivation
      exact .name isName
    · next isParen =>
      cases found
      apply (h.bind fun inner => Reads.expecting fun closing isClosing => Reads.pure _).mono
      intro _ _ _ derivation
      obtain ⟨ts, inner, _, rfl, derived, closing, _, rfl, isClosing, rfl, rfl⟩ := derivation
      exact .group isParen derived isClosing
    · obtain ⟨l, isLiteral, rfl⟩ := Option.map_eq_some_iff.1 found
      apply (Reads.pure (Expr.literal l)).mono
      intro _ _ _ derivation
      obtain ⟨rfl, rfl⟩ := derivation
      exact .literal isLiteral
  · intro _ _ _ derivation
    obtain ⟨t, us, rfl, derived⟩ := derivation
    exact derived

/-! ### Calls and operators -/

theorem reads_suffixes {nested : Rule Expr} {D : List Token → Expr → Prop} (h : Reads nested (Whole D))
    (fuel : Nat) (e : Expr) : Reads (suffixes nested fuel e) (Whole (Ebnf.Suffixes D e)) := by
  induction fuel generalizing e with
  | zero => exact Reads.throw _
  | succ fuel ih =>
    have call : Reads (do
        let arguments ← listed nested .tooManyArguments (fuel + 1)
        let paren ← expect (.symbol .rightParen) .expectArgumentsEnd
        suffixes nested fuel (.call e paren arguments)) _ :=
      (reads_listed h .tooManyArguments (fuel + 1)).bind fun arguments =>
        Reads.expecting fun paren _ => ih (.call e paren arguments)
    have property : Reads (do
        let name ← expect .identifier .expectPropertyName
        suffixes nested fuel (.get e name)) _ :=
      Reads.expecting fun name _ => ih (.get e name)
    apply (Reads.accepting (fun _ _ => call) (Reads.accepting (fun _ _ => property)
      (Reads.pure e))).mono
    intro _ _ _ derivation
    rcases derivation with ⟨opening, _, rfl, isOpening, ts, arguments, _, rfl, listing, closing, us,
      rfl, isClosing, rest⟩ | ⟨-, ⟨dot, _, rfl, isDot, name, us, rfl, isName, rest⟩ | ⟨-, rfl, rfl⟩⟩
    · exact .call (by simpa using isOpening) listing isClosing rest
    · exact .property (by simpa using isDot) isName rest
    · exact .done

theorem reads_unary {nested : Rule Expr} {D : List Token → Expr → Prop} (h : Reads nested (Whole D))
    (fuel : Nat) : Reads (unary nested fuel) (Whole (Ebnf.Unary D)) := by
  induction fuel with
  | zero => exact Reads.throw _
  | succ fuel ih =>
    apply (Reads.accepting (fun operator _ => ih.bind fun right => Reads.pure _)
      ((reads_primary h).bind fun e => reads_suffixes h (fuel + 1) e)).mono
    intro _ _ _ derivation
    rcases derivation with ⟨operator, _, rfl, isOperator, ts, right, _, rfl, derived, rfl, rfl⟩ |
      ⟨-, ts, e, us, rfl, first, rest⟩
    · exact .operator isOperator (by simpa using derived)
    · exact .call (.mk first rest)

theorem reads_chain {level : Level} {p : Ebnf.Precedence} {operand : Rule Expr}
    {D : List Token → Expr → Prop} (kinds : ∀ k, k ∈ level.operators → k ∈ p.operators)
    (node : level.node = p.join) (h : Reads operand (Whole D)) (fuel : Nat) (left : Expr) :
    Reads (chain level operand fuel left) (Whole (Ebnf.Joins p D left)) := by
  induction fuel generalizing left with
  | zero => exact Reads.throw _
  | succ fuel ih =>
    apply (Reads.accepting
      (fun operator _ => h.bind fun right => ih (level.node left operator right))
      (Reads.pure left)).mono
    intro _ _ _ derivation
    rcases derivation with ⟨operator, _, rfl, isOperator, ts, right, us, rfl, derived, rest⟩ |
      ⟨-, rfl, rfl⟩
    · exact .more (kinds _ isOperator) derived (node ▸ rest)
    · exact .done

theorem reads_level {level : Level} {tighter : List Level} {p : Ebnf.Precedence}
    {operand : Rule Expr} {D : List Token → Expr → Prop} {fuel : Nat}
    (kinds : ∀ k, k ∈ level.operators → k ∈ p.operators) (node : level.node = p.join)
    (h : Reads (binary operand fuel tighter) (Whole D)) :
    Reads (binary operand fuel (level :: tighter)) (Whole (Ebnf.Joined p D)) := by
  apply (h.bind fun left => reads_chain kinds node h fuel left).mono
  intro _ _ _ derivation
  obtain ⟨ts, left, us, rfl, first, rest⟩ := derivation
  exact .mk first rest

/-- `logic_or` with its operands, down to `factor`. -/
abbrev Operation (unary : List Token → Expr → Prop) : List Token → Expr → Prop :=
  Ebnf.Joined .logicOr (Ebnf.Joined .logicAnd (Ebnf.Joined .equality (Ebnf.Joined .comparison
    (Ebnf.Joined .term (Ebnf.Joined .factor unary)))))

theorem reads_binary {operand : Rule Expr} {D : List Token → Expr → Prop} (h : Reads operand (Whole D))
    (fuel : Nat) : Reads (binary operand fuel levels) (Whole (Operation D)) := by
  have factor : Reads (binary operand fuel (levels.drop 5)) _ :=
    reads_level (p := .factor) (by simp [Ebnf.Precedence.operators, or_comm]) rfl h
  have term : Reads (binary operand fuel (levels.drop 4)) _ :=
    reads_level (p := .term) (fun _ => id) rfl factor
  have comparison : Reads (binary operand fuel (levels.drop 3)) _ :=
    reads_level (p := .comparison) (fun _ => id) rfl term
  have equality : Reads (binary operand fuel (levels.drop 2)) _ :=
    reads_level (p := .equality) (fun _ => id) rfl comparison
  have logicAnd : Reads (binary operand fuel (levels.drop 1)) _ :=
    reads_level (p := .logicAnd) (fun _ => id) rfl equality
  exact reads_level (p := .logicOr) (fun _ => id) rfl logicAnd

/-! ### Assignments -/

/-- What comes out of a chain of operators is its left operand or the node of an operator. -/
theorem joins_node {p : Ebnf.Precedence} {D : List Token → Expr → Prop} {left e : Expr}
    {us : List Token} (h : Ebnf.Joins p D left us e) :
    (us = [] ∧ e = left) ∨ (∃ l t r, e = .binary l t r) ∨ ∃ l t r, e = .logical l t r := by
  induction h with
  | done => exact .inl ⟨rfl, rfl⟩
  | @more left operator _ right _ _ _ _ _ ih =>
    rcases ih with ⟨-, rfl⟩ | node
    · cases p
      case logicOr | logicAnd => exact .inr (.inr ⟨left, operator, right, rfl⟩)
      all_goals exact .inr (.inl ⟨left, operator, right, rfl⟩)
    · exact .inr node

/-- A tree that is no operator's comes from a single operand. -/
theorem joined_operand {p : Ebnf.Precedence} {D : List Token → Expr → Prop} {ts : List Token}
    {e : Expr} (h : Ebnf.Joined p D ts e) (binary : ∀ l t r, e ≠ .binary l t r)
    (logical : ∀ l t r, e ≠ .logical l t r) : D ts e := by
  obtain ⟨operand, rest⟩ := h
  rcases joins_node rest with ⟨rfl, rfl⟩ | ⟨l, t, r, node⟩ | ⟨l, t, r, node⟩
  · simpa using operand
  · exact absurd node (binary l t r)
  · exact absurd node (logical l t r)

theorem operation_operand {D : List Token → Expr → Prop} {ts : List Token} {e : Expr}
    (h : Operation D ts e) (binary : ∀ l t r, e ≠ .binary l t r)
    (logical : ∀ l t r, e ≠ .logical l t r) : D ts e := by
  iterate 6 replace h := joined_operand h binary logical
  exact h

/-- The last suffix tells what comes out. -/
theorem suffixes_last {D : List Token → Expr → Prop} {e e' : Expr} {us : List Token}
    (h : Ebnf.Suffixes D e us e') :
    (us = [] ∧ e' = e) ∨ (∃ callee paren arguments, e' = .call callee paren arguments) ∨
      ∃ vs object dot name, us = vs ++ [dot, name] ∧ Ebnf.Suffixes D e vs object ∧
        dot.kind = .symbol .dot ∧ name.kind = .identifier ∧ e' = .get object name := by
  induction h with
  | done => exact .inl ⟨rfl, rfl⟩
  | call isOpening listing isClosing _ ih =>
    rcases ih with ⟨rfl, rfl⟩ | call | ⟨vs, object, dot, name, rfl, inner, isDot, isName, rfl⟩
    · exact .inr (.inl ⟨_, _, _, rfl⟩)
    · exact .inr (.inl call)
    · exact .inr (.inr ⟨_, object, dot, name, by simp, .call isOpening listing isClosing inner,
        isDot, isName, rfl⟩)
  | @property e dot name us e' isDot isName _ ih =>
    rcases ih with ⟨rfl, rfl⟩ | call | ⟨vs, object, dot', name', rfl, inner, isDot', isName', rfl⟩
    · exact .inr (.inr ⟨[], e, dot, name, rfl, .done, isDot, isName, rfl⟩)
    · exact .inr (.inl call)
    · exact .inr (.inr ⟨_, object, dot', name', rfl, .property isDot isName inner, isDot', isName',
        rfl⟩)

/-- A variable comes from its name alone. -/
theorem unary_variable {D : List Token → Expr → Prop} {ts : List Token} {id : NodeId} {t : Token}
    (h : Ebnf.Unary D ts (.variable id t)) : ts = [t] ∧ t.kind = .identifier := by
  cases h with
  | call call =>
    obtain ⟨first, rest⟩ := call
    rcases suffixes_last rest with ⟨rfl, rfl⟩ | ⟨_, _, _, node⟩ | ⟨_, _, _, _, _, _, _, _, node⟩
    · cases first with
      | name isName => exact ⟨rfl, isName⟩
    · cases node
    · cases node

/-- A property comes from a call, a dot and its name. -/
theorem unary_get {D : List Token → Expr → Prop} {ts : List Token} {object : Expr} {name : Token}
    (h : Ebnf.Unary D ts (.get object name)) :
    ∃ us dot, ts = us ++ [dot, name] ∧ Ebnf.Call D us object ∧ dot.kind = .symbol .dot ∧
      name.kind = .identifier := by
  cases h with
  | call call =>
    obtain ⟨first, rest⟩ := call
    rcases suffixes_last rest with ⟨rfl, rfl⟩ | ⟨_, _, _, node⟩ |
      ⟨vs, object', dot, name', rfl, inner, isDot, isName, node⟩
    · cases first
    · cases node
    · cases node
      exact ⟨_, dot, (List.append_assoc _ _ _).symm, .mk first inner, isDot, isName⟩

/-- What follows an equals sign is assigned to the name or property before it. -/
theorem reads_assigned {nested : Rule Expr} {D : List Token → Expr → Prop} (h : Reads nested (Whole D))
    (target : Expr) (equals : Token) : Reads (do
      let value ← nested
      match target with
      | .variable _ name => return .assign (← freshId) name value
      | .get object name => return .set object name value
      | other =>
        note equals .invalidAssignmentTarget
        return other)
      fun ts _ e => ∃ v, D ts v ∧
        ((∃ id id' name, target = .variable id name ∧ e = .assign id' name v) ∨
          ∃ object name, target = .get object name ∧ e = .set object name v) := by
  refine (h.bind (F := fun v ts _ e => ts = [] ∧
    ((∃ id id' name, target = .variable id name ∧ e = .assign id' name v) ∨
      ∃ object name, target = .get object name ∧ e = .set object name v)) fun v => ?_).mono ?_
  · split
    · next id name =>
      apply (Reads.numbering fun id' => Reads.pure _).mono
      intro _ _ _ derivation
      obtain ⟨id', rfl, rfl⟩ := derivation
      exact ⟨rfl, .inl ⟨id, id', name, rfl, rfl⟩⟩
    · next object name =>
      apply (Reads.pure _).mono
      intro _ _ _ derivation
      obtain ⟨rfl, rfl⟩ := derivation
      exact ⟨rfl, .inr ⟨object, name, rfl, rfl⟩⟩
    · apply ((reads_note equals _ (D := fun _ _ _ => False)).bind fun _ => Reads.pure target).mono
      intro _ _ _ derivation
      obtain ⟨_, _, _, _, impossible, _⟩ := derivation
      exact impossible.elim
  · intro _ _ _ derivation
    obtain ⟨ts, v, _, rfl, derived, rfl, node⟩ := derivation
    exact ⟨v, by simpa using derived, node⟩

theorem reads_assignment {nested : Rule Expr} {D : List Token → Expr → Prop} (h : Reads nested (Whole D))
    (fuel : Nat) : Reads (assignment nested fuel) (Whole (Ebnf.Assignment D)) := by
  apply ((reads_binary (reads_unary h fuel) fuel).bind fun target =>
    Reads.accepting (fun equals _ => reads_assigned h target equals) (Reads.pure target)).mono
  intro _ _ _ derivation
  obtain ⟨ts, target, _, rfl, operation, others⟩ := derivation
  rcases others with ⟨equals, us, rfl, isEqual, v, derived, node⟩ | ⟨-, rfl, rfl⟩
  · replace isEqual : equals.kind = .symbol .equal := by simpa using isEqual
    rcases node with ⟨id, id', name, rfl, rfl⟩ | ⟨object, name, rfl, rfl⟩
    · obtain ⟨rfl, isName⟩ := unary_variable (operation_operand operation nofun nofun)
      exact .name isName isEqual derived
    · obtain ⟨us, dot, rfl, call, isDot, isName⟩ :=
        unary_get (operation_operand operation nofun nofun)
      simpa using Ebnf.Assignment.property call isDot isName isEqual derived
  · simpa using Ebnf.Assignment.operation operation

/-- What the rule for expressions reads without a fault is derived from its tokens. -/
theorem reads_expression (fuel : Nat) : Reads (expression fuel) (Whole Ebnf.Expression) := by
  induction fuel with
  | zero => exact Reads.throw _
  | succ fuel ih => exact (reads_assignment ih (fuel + 1)).mono fun _ _ _ => .mk

theorem reads_wholeExpression (fuel : Nat) : Reads (wholeExpression fuel) fun _ _ _ => True :=
  ((reads_expression fuel).bind fun e => Reads.ending fun _ =>
    Reads.unlessNoted (fun _ => reads_noteHere _) (Reads.pure e) fun _ _ _ _ same => same).mono
    fun _ _ _ _ => trivial

end Lox.Grammar
