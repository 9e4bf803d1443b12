import Lox.Proofs.Grammar.Soundness.Expression
import Lox.Proofs.Grammar.Taking
import Lox.Proofs.Grammar.Unnumbered

/-!
# Expressions that are derived are read

What a nonterminal derives is taken by the rule of its name if the next token cannot extend it, and
the tree is the derived one up to identities (`takes_expression`).
-/

namespace Lox.Grammar

/-! ### Lists of items -/

section Lists

variable {α β : Type} {item : Rule α} {f : α → β} {D : List Token → α → Prop} {kinds : List Kind}
  {bound : Nat}

/-- An item before a comma or at the end of the list. -/
def ItemTaken (item : Rule α) (f : α → β) (D : List Token → α → Prop) (kinds : List Kind)
    (bound : Nat) : Prop :=
  ∀ {ts a rest}, D ts a → Stops kinds rest → ts.length + rest.length < bound →
    Takes item ts rest fun a' => f a' = f a

theorem takes_commaSeparated (h : ItemTaken item f D kinds bound) (comma : .symbol .comma ∉ kinds)
    (excess : SyntaxFault) {ts rest : List Token} {as : List α} (items : Ebnf.Items D ts as)
    {count : Nat} (few : count + as.length ≤ mostArguments) (stops : Stops kinds rest)
    (ends : Stops [.symbol .comma] rest) (room : ts.length + rest.length < bound) {fuel : Nat}
    (fuelled : ts.length + rest.length < fuel) :
    Takes (commaSeparated item excess count fuel) ts rest fun as' => as'.map f = as.map f := by
  induction items generalizing count fuel with
  | one derived =>
    obtain ⟨fuel, rfl⟩ := Nat.exists_eq_add_one_of_ne_zero (n := fuel) (by omega)
    rw [List.length_singleton] at few
    refine Takes.unnoted (k := fun _ => item >>= _) (by omega)
      ((h derived stops room).last fun first same => Takes.declining ends ?_)
    exact .pure (by simp [same])
  | more derived isComma _ ih =>
    obtain ⟨fuel, rfl⟩ := Nat.exists_eq_add_one_of_ne_zero (n := fuel) (by omega)
    simp only [List.length_append, List.length_cons] at few room fuelled
    refine Takes.unnoted (k := fun _ => item >>= _) (by omega)
      ((h derived (stops_cons (isComma ▸ comma)) (by simp; omega)).bind fun first same =>
        Takes.accepting (by simp [isComma]) ?_)
    refine (ih (by omega) (by omega) (by omega)).last fun others same' => .pure ?_
    simp [same, same']

theorem takes_listed (h : ItemTaken item f D kinds bound) (comma : .symbol .comma ∉ kinds)
    (paren : .symbol .rightParen ∉ kinds)
    (starts : ∀ {ts a}, D ts a → ∃ t us, ts = t :: us ∧ t.kind ≠ .symbol .rightParen)
    (excess : SyntaxFault) {ts rest : List Token} {closing : Token} {as : List α}
    (listing : Ebnf.Listing D ts as) (isClosing : closing.kind = .symbol .rightParen)
    (room : ts.length + (closing :: rest).length < bound) {fuel : Nat}
    (fuelled : ts.length + (closing :: rest).length < fuel) :
    Takes (listed item excess fuel) ts (closing :: rest) fun as' => as'.map f = as.map f := by
  cases listing with
  | none => exact Takes.seeing isClosing rfl (.pure rfl)
  | some items few =>
    have first : ∃ t us, ts = t :: us ∧ t.kind ≠ .symbol .rightParen := by
      cases items with
      | one derived => exact starts derived
      | more derived =>
        obtain ⟨t, us, rfl, other⟩ := starts derived
        exact ⟨t, _, rfl, other⟩
    obtain ⟨t, us, rfl, other⟩ := first
    apply Takes.missing (stops_cons (by simpa using other))
    exact takes_commaSeparated h comma excess items (by simpa [mostArguments] using few)
      (stops_cons (isClosing ▸ paren)) (stops_cons (by simp [isClosing])) room fuelled

end Lists

theorem unnumberedAll_eq_map (es : List Expr) : Expr.unnumberedAll es = es.map Expr.unnumbered := by
  induction es with
  | nil => rfl
  | cons e es ih => rw [Expr.unnumberedAll, ih, List.map_cons]

/-! ### First tokens -/

def unaryOperators : List Kind := [.symbol .bang, .symbol .minus]

/-- The kinds of token that start no expression, as far as the rules decide by them. -/
def nonStarters : List Kind :=
  [.symbol .rightParen, .symbol .rightBrace, .symbol .semicolon, .keyword .else]
    ++ statementOpeners ++ declarationOpeners

theorem literalOf?_nonStarters : ∀ k ∈ unaryOperators ++ nonStarters, Ebnf.literalOf? k = none := by
  decide

theorem primary_starts {D : List Token → Expr → Prop} {ts : List Token} {e : Expr}
    (h : Ebnf.Primary D ts e) : ∃ t us, ts = t :: us ∧ t.kind ∉ unaryOperators ++ nonStarters := by
  cases h with
  | literal isLiteral =>
    refine ⟨_, _, rfl, fun mem => ?_⟩
    rw [literalOf?_nonStarters _ mem] at isLiteral
    cases isLiteral
  | this isThis => exact ⟨_, _, rfl, isThis ▸ by decide⟩
  | name isName => exact ⟨_, _, rfl, isName ▸ by decide⟩
  | group isOpening => exact ⟨_, _, rfl, isOpening ▸ by decide⟩
  | super isSuper => exact ⟨_, _, rfl, isSuper ▸ by decide⟩

theorem call_starts {D : List Token → Expr → Prop} {ts : List Token} {e : Expr}
    (h : Ebnf.Call D ts e) : ∃ t us, ts = t :: us ∧ t.kind ∉ unaryOperators ++ nonStarters := by
  obtain ⟨first, -⟩ := h
  obtain ⟨t, us, rfl, other⟩ := primary_starts first
  exact ⟨t, _, rfl, other⟩

theorem unary_starts {D : List Token → Expr → Prop} {ts : List Token} {e : Expr}
    (h : Ebnf.Unary D ts e) : ∃ t us, ts = t :: us ∧ t.kind ∉ nonStarters := by
  cases h with
  | operator isOperator =>
    refine ⟨_, _, rfl, ?_⟩
    have disjoint : ∀ k ∈ unaryOperators, k ∉ nonStarters := by decide
    exact disjoint _ isOperator
  | call call =>
    obtain ⟨t, us, rfl, other⟩ := call_starts call
    exact ⟨t, us, rfl, fun mem => other (List.mem_append_right _ mem)⟩

theorem joined_starts {p : Ebnf.Precedence} {D : List Token → Expr → Prop} {kinds : List Kind}
    (h : ∀ {ts e}, D ts e → ∃ t us, ts = t :: us ∧ t.kind ∉ kinds) {ts : List Token} {e : Expr}
    (joined : Ebnf.Joined p D ts e) : ∃ t us, ts = t :: us ∧ t.kind ∉ kinds := by
  obtain ⟨first, -⟩ := joined
  obtain ⟨t, us, rfl, other⟩ := h first
  exact ⟨t, _, rfl, other⟩

theorem expression_starts {ts : List Token} {e : Expr} (h : Ebnf.Expression ts e) :
    ∃ t us, ts = t :: us ∧ t.kind ∉ nonStarters := by
  obtain ⟨assignment⟩ := h
  cases assignment with
  | name isName => exact ⟨_, _, rfl, isName ▸ by decide⟩
  | property call =>
    obtain ⟨t, us, rfl, other⟩ := call_starts call
    exact ⟨t, _, rfl, fun mem => other (List.mem_append_right _ mem)⟩
  | operation operation =>
    exact joined_starts (joined_starts (joined_starts (joined_starts (joined_starts
      (joined_starts unary_starts))))) operation

/-! ### Calls and operators -/

/-- What `D` derives is taken by a rule if fewer than `bound` tokens are there and the next one
is of none of these kinds. -/
structure Completes (r : Rule Expr) (D : List Token → Expr → Prop) (kinds : List Kind)
    (bound : Nat) : Prop where
  takes : ∀ {ts e rest}, D ts e → Stops kinds rest → ts.length + rest.length < bound →
    Takes r ts rest fun e' => e'.unnumbered = e.unnumbered

/-- The kinds of token that go on with an operand or with an operator of these levels. -/
def extenders (ls : List Level) : List Kind :=
  ls.flatMap Level.operators ++ [.symbol .leftParen, .symbol .dot]

def expressionExtenders : List Kind := .symbol .equal :: extenders levels

theorem closers_not_extend :
    ∀ k ∈ [Kind.symbol .rightParen, .symbol .comma, .symbol .semicolon],
      k ∉ expressionExtenders := by
  decide

section Nested

variable {nested : Rule Expr} {bound : Nat}
  (h : Completes nested Ebnf.Expression expressionExtenders bound)

include h

theorem takes_primary {ts rest : List Token} {e : Expr} (derived : Ebnf.Primary Ebnf.Expression ts e)
    (room : ts.length + rest.length < bound + 1) :
    Takes (primary nested) ts rest fun e' => e'.unnumbered = e.unnumbered := by
  have after : ∀ {t us q}, primaryAfter nested t = some q →
      Takes q us rest (fun e' => e'.unnumbered = e.unnumbered) →
      Takes (primary nested) (t :: us) rest fun e' => e'.unnumbered = e.unnumbered := by
    intro t us q found taken s read
    rw [primary_cons nested t s (us ++ rest) read, found]
    exact taken { s with rest := us ++ rest } rfl
  cases derived with
  | @literal t l isLiteral =>
    have found : primaryAfter nested t = some (return .literal l) := by
      unfold primaryAfter
      split <;> simp_all [Ebnf.literalOf?]
    exact after found (.pure rfl)
  | this isThis =>
    apply after (by rw [primaryAfter, isThis])
    exact Takes.numbering fun id => .pure rfl
  | name isName =>
    apply after (by rw [primaryAfter, isName])
    exact Takes.numbering fun id => .pure rfl
  | group isOpening inner isClosing =>
    simp only [List.length_cons, List.length_append, List.length_nil] at room
    apply after (by rw [primaryAfter, isOpening])
    refine (h.takes inner (stops_cons ?_) (by simp; omega)).bind fun e same =>
      Takes.expecting isClosing (.pure ?_)
    · exact isClosing ▸ closers_not_extend _ (by simp)
    · rw [Expr.unnumbered, Expr.unnumbered, same]
  | super isSuper isDot isName =>
    apply after (by rw [primaryAfter, isSuper])
    exact Takes.expecting isDot (Takes.expecting isName (Takes.numbering fun id => .pure rfl))

theorem takes_arguments {ts rest : List Token} {closing : Token} {arguments : List Expr}
    (listing : Ebnf.Listing Ebnf.Expression ts arguments)
    (isClosing : closing.kind = .symbol .rightParen)
    (room : ts.length + (closing :: rest).length < bound) {fuel : Nat}
    (fuelled : ts.length + (closing :: rest).length < fuel) :
    Takes (listed nested .tooManyArguments fuel) ts (closing :: rest) fun es =>
      Expr.unnumberedAll es = Expr.unnumberedAll arguments := by
  have starts : ∀ {ts e}, Ebnf.Expression ts e →
      ∃ t us, ts = t :: us ∧ t.kind ≠ .symbol .rightParen := by
    intro ts e derived
    obtain ⟨t, us, rfl, other⟩ := expression_starts derived
    exact ⟨t, us, rfl, fun isParen => other (isParen ▸ by decide)⟩
  simp only [unnumberedAll_eq_map]
  exact takes_listed h.takes (closers_not_extend _ (by simp)) (closers_not_extend _ (by simp)) starts _
    listing isClosing room fuelled

theorem takes_suffixes {e e₀ e' : Expr} {us rest : List Token}
    (derived : Ebnf.Suffixes Ebnf.Expression e us e') (same : e₀.unnumbered = e.unnumbered)
    (stops : Stops (extenders []) rest) {fuel : Nat} (fuelled : us.length + rest.length < fuel)
    (room : us.length + rest.length < bound + 1) :
    Takes (suffixes nested fuel e₀) us rest fun e'' => e''.unnumbered = e'.unnumbered := by
  induction derived generalizing e₀ fuel with
  | done =>
    obtain ⟨fuel, rfl⟩ := Nat.exists_eq_add_one_of_ne_zero (n := fuel) (by omega)
    have noCall : Stops [.symbol .leftParen] rest := stops.mono (by simp [extenders])
    have noProperty : Stops [.symbol .dot] rest := stops.mono (by simp [extenders])
    exact Takes.declining noCall (Takes.declining noProperty (.pure same))
  | call isOpening listing isClosing _ ih =>
    obtain ⟨fuel, rfl⟩ := Nat.exists_eq_add_one_of_ne_zero (n := fuel) (by omega)
    simp only [List.length_append, List.length_cons] at fuelled room
    apply Takes.accepting (by simp [isOpening])
    refine (takes_arguments h listing isClosing (by simp; omega) (by simp; omega)).bind
      fun arguments same' => Takes.expecting isClosing (ih ?_ (by omega) (by omega))
    rw [Expr.unnumbered, Expr.unnumbered, same, same']
  | property isDot isName _ ih =>
    obtain ⟨fuel, rfl⟩ := Nat.exists_eq_add_one_of_ne_zero (n := fuel) (by omega)
    simp only [List.length_cons] at fuelled room
    refine Takes.declining (stops_cons (by simp [isDot])) (Takes.accepting (by simp [isDot]) ?_)
    refine Takes.expecting isName (ih ?_ (by omega) (by omega))
    rw [Expr.unnumbered, Expr.unnumbered, same]

theorem takes_unary {ts rest : List Token} {e : Expr} (derived : Ebnf.Unary Ebnf.Expression ts e)
    (stops : Stops (extenders []) rest) {fuel : Nat} (fuelled : ts.length + rest.length < fuel)
    (room : ts.length + rest.length < bound + 1) :
    Takes (unary nested fuel) ts rest fun e' => e'.unnumbered = e.unnumbered := by
  induction derived generalizing fuel with
  | operator isOperator _ ih =>
    obtain ⟨fuel, rfl⟩ := Nat.exists_eq_add_one_of_ne_zero (n := fuel) (by omega)
    simp only [List.length_cons] at fuelled room
    refine Takes.accepting isOperator ((ih (by omega) (by omega)).last fun right same => .pure ?_)
    rw [Expr.unnumbered, Expr.unnumbered, same]
  | call call =>
    obtain ⟨fuel, rfl⟩ := Nat.exists_eq_add_one_of_ne_zero (n := fuel) (by omega)
    obtain ⟨t, vs, split, other⟩ := call_starts call
    obtain ⟨first, others⟩ := call
    simp only [List.length_append] at fuelled room
    refine Takes.declining (split ▸ stops_cons fun mem => other (List.mem_append_left _ mem))
      ((takes_primary h first (by simp; omega)).bind
      fun e same => takes_suffixes h others same stops (by omega) (by omega))

end Nested

theorem join_unnumbered (p : Ebnf.Precedence) {l l' r r' : Expr} (t : Token)
    (left : l.unnumbered = l'.unnumbered) (right : r.unnumbered = r'.unnumbered) :
    (p.join l t r).unnumbered = (p.join l' t r').unnumbered := by
  cases p <;> simp [Ebnf.Precedence.join, Expr.unnumbered, left, right]

section Levels

variable {level : Level} {p : Ebnf.Precedence} {D : List Token → Expr → Prop} {bound : Nat}
  (operators : ∀ k ∈ p.operators, k ∈ level.operators) (node : level.node = p.join)

include operators

/-- After an operand come operators of its level or what ends the level. -/
theorem joins_follow {kinds : List Kind} (disjoint : ∀ k ∈ level.operators, k ∉ kinds)
    {left e : Expr} {us rest : List Token} (derived : Ebnf.Joins p D left us e)
    (stops : Stops (level.operators ++ kinds) rest) : Stops kinds (us ++ rest) := by
  cases derived with
  | done => exact stops.mono fun k mem => List.mem_append_right _ mem
  | more isOperator => exact stops_cons (disjoint _ (operators _ isOperator))

include node

theorem takes_chain {operand : Rule Expr} {kinds : List Kind}
    (disjoint : ∀ k ∈ level.operators, k ∉ kinds) (h : Completes operand D kinds bound)
    {left left' e : Expr} {us rest : List Token} (derived : Ebnf.Joins p D left us e)
    (same : left'.unnumbered = left.unnumbered) (stops : Stops (level.operators ++ kinds) rest)
    {fuel : Nat} (fuelled : us.length + rest.length < fuel)
    (room : us.length + rest.length < bound) :
    Takes (chain level operand fuel left') us rest fun e' => e'.unnumbered = e.unnumbered := by
  induction derived generalizing left' fuel with
  | done =>
    obtain ⟨fuel, rfl⟩ := Nat.exists_eq_add_one_of_ne_zero (n := fuel) (by omega)
    exact Takes.declining (stops.mono fun k mem => List.mem_append_left _ mem) (.pure same)
  | @more _ t ts right us _ isOperator first others ih =>
    obtain ⟨fuel, rfl⟩ := Nat.exists_eq_add_one_of_ne_zero (n := fuel) (by omega)
    simp only [List.length_append, List.length_cons] at fuelled room
    apply Takes.accepting (operators _ isOperator)
    apply (h.takes first (joins_follow operators disjoint others stops) (by simp; omega)).bind
    intro right' same'
    rw [node]
    exact ih (join_unnumbered p t same same') (by omega) (by omega)

theorem takes_level {tighter : List Level} {operand : Rule Expr}
    (disjoint : ∀ k ∈ level.operators, k ∉ extenders tighter)
    (h : Completes (binary operand bound tighter) D (extenders tighter) bound) :
    Completes (binary operand bound (level :: tighter)) (Ebnf.Joined p D)
      (extenders (level :: tighter)) bound := by
  refine ⟨@fun ts e rest derived stops room => ?_⟩
  have stops : Stops (level.operators ++ extenders tighter) rest := by
    simpa [extenders] using stops
  obtain ⟨first, others⟩ := derived
  simp only [List.length_append] at room
  apply (h.takes first (joins_follow operators disjoint others stops) (by simp; omega)).bind
  intro left same
  exact takes_chain operators node disjoint h others same stops (by omega) (by omega)

end Levels

theorem takes_binary {operand : Rule Expr} {D : List Token → Expr → Prop} {bound : Nat}
    (h : Completes operand D (extenders []) bound) :
    Completes (binary operand bound levels) (Operation D) (extenders levels) bound := by
  have factor : Completes (binary operand bound (levels.drop 5)) _ _ bound :=
    takes_level (p := .factor) (by decide) rfl (by decide) h
  have term : Completes (binary operand bound (levels.drop 4)) _ _ bound :=
    takes_level (p := .term) (by decide) rfl (by decide) factor
  have comparison : Completes (binary operand bound (levels.drop 3)) _ _ bound :=
    takes_level (p := .comparison) (by decide) rfl (by decide) term
  have equality : Completes (binary operand bound (levels.drop 2)) _ _ bound :=
    takes_level (p := .equality) (by decide) rfl (by decide) comparison
  have logicAnd : Completes (binary operand bound (levels.drop 1)) _ _ bound :=
    takes_level (p := .logicAnd) (by decide) rfl (by decide) equality
  have logicOr : Completes (binary operand bound (levels.drop 0)) _ _ bound :=
    takes_level (p := .logicOr) (by decide) rfl (by decide) logicAnd
  exact logicOr

/-! ### Assignments -/

theorem operation_of_unary {D : List Token → Expr → Prop} {ts : List Token} {e : Expr}
    (h : D ts e) : Operation D ts e := by
  have alone : ∀ {p} {E : List Token → Expr → Prop}, E ts e → Ebnf.Joined p E ts e := by
    intro p E derived
    simpa using Ebnf.Joined.mk (p := p) derived .done
  iterate 6 refine alone ?_
  exact h

theorem suffixes_property {D : List Token → Expr → Prop} {e object : Expr} {us : List Token}
    {dot name : Token} (h : Ebnf.Suffixes D e us object) (isDot : dot.kind = .symbol .dot)
    (isName : name.kind = .identifier) :
    Ebnf.Suffixes D e (us ++ [dot, name]) (.get object name) := by
  induction h with
  | done => exact .property isDot isName .done
  | call isOpening listing isClosing _ ih =>
    simpa using Ebnf.Suffixes.call isOpening listing isClosing ih
  | property isDot' isName' _ ih => exact .property isDot' isName' ih

theorem unary_property {D : List Token → Expr → Prop} {ts : List Token} {object : Expr}
    {dot name : Token} (h : Ebnf.Call D ts object) (isDot : dot.kind = .symbol .dot)
    (isName : name.kind = .identifier) : Ebnf.Unary D (ts ++ [dot, name]) (.get object name) := by
  obtain ⟨first, others⟩ := h
  rw [List.append_assoc]
  exact .call (.mk first (suffixes_property others isDot isName))

theorem takes_assignment {nested : Rule Expr} {bound : Nat}
    (h : Completes nested Ebnf.Expression expressionExtenders bound) :
    Completes (assignment nested (bound + 1)) (Ebnf.Assignment Ebnf.Expression) expressionExtenders
      (bound + 1) := by
  refine ⟨@fun ts e rest derived stops room => ?_⟩
  have target := takes_binary ⟨fun derived stops room => takes_unary h derived stops room room⟩
  cases derived with
  | @name t equals ts e id isName isEqual derived =>
    simp only [List.length_cons] at room
    have derivedTarget : Operation (Ebnf.Unary Ebnf.Expression) [t] (.variable 0 t) :=
      operation_of_unary (.call (by simpa using .mk (.name isName) .done))
    show Takes _ ([t] ++ equals :: ts) _ _
    apply (target.takes derivedTarget (stops_cons (isEqual ▸ by decide)) (by simp; omega)).bind
    intro left sameLeft
    obtain ⟨id', rfl⟩ : ∃ id', left = .variable id' t := by
      cases left <;> simp_all [Expr.unnumbered]
    refine Takes.accepting (by simp [isEqual]) ((h.takes derived stops (by omega)).last
      fun value same' => Takes.numbering fun id => .pure ?_)
    rw [Expr.unnumbered, Expr.unnumbered, same']
  | @property ts object dot t equals us e call isDot isName isEqual derived =>
    simp only [List.length_cons, List.length_append] at room
    have derivedTarget := operation_of_unary (unary_property call isDot isName)
    have split : ts ++ dot :: t :: equals :: us = (ts ++ [dot, t]) ++ equals :: us := by simp
    rw [split]
    apply (target.takes derivedTarget (stops_cons (isEqual ▸ by decide)) (by simp; omega)).bind
    intro left sameLeft
    obtain ⟨object', rfl, same⟩ : ∃ object', left = .get object' t ∧
        object'.unnumbered = object.unnumbered := by
      cases left <;> simp_all [Expr.unnumbered]
    refine Takes.accepting (by simp [isEqual]) ((h.takes derived stops (by omega)).last
      fun value same' => .pure ?_)
    rw [Expr.unnumbered, Expr.unnumbered, same, same']
  | operation operation =>
    refine (target.takes operation (stops.mono fun k mem => List.mem_cons_of_mem _ mem) room).last
      fun e same => Takes.declining (stops.mono (by simp [expressionExtenders])) (.pure same)

/-- What is derived as an expression is read as that expression before any token that does not
extend it. -/
theorem takes_expression (fuel : Nat) :
    Completes (expression fuel) Ebnf.Expression expressionExtenders fuel := by
  induction fuel with
  | zero => exact ⟨fun _ _ room => absurd room (Nat.not_lt_zero _)⟩
  | succ fuel ih => exact ⟨fun ⟨derived⟩ stops room => (takes_assignment ih).takes derived stops room⟩

end Lox.Grammar
